import Arhugula.Proof.WireSafety

/-!
# Replies on the wire

A reply that is written to a request is parsed as the same reply, and what is parsed of any bytes fits the request: its
envelope, its candidates, and the audio (`reply_round_trip`).
-/

namespace Arhugula

namespace Gateway

variable {codec : Codec} {v doc : Json} {m : Mapping Json} {request : Request} {candidates : List String}

/-! ## What is parsed -/

theorem parseResponse_ok {raw : Bytes} {reply : Reply} (h : parseResponse codec (some raw) request = .ok reply) :
    ∃ doc, codec.loads raw = some doc ∧ uniqueKeys doc = true ∧ decodeResponse codec request doc = some reply := by
  unfold parseResponse at h
  dsimp only at h
  split at h
  · rename_i r hr
    cases h
    obtain ⟨doc, hload, hdecode⟩ := Option.bind_eq_some_iff.1 hr
    obtain ⟨-, hread, hunique⟩ := load_some hload
    exact ⟨doc, hread, hunique, hdecode⟩
  · cases h

/-- **The two shapes of a response.** -/
theorem decodeResponse_some {reply : Reply} (h : decodeResponse codec request doc = some reply) :
    ∃ m : Mapping Json, doc = .obj m ∧ matchesEnvelope request m = true ∧
      ((∃ code c, m.get "status" = some (.str "error") ∧ m.get "code" = some (.str c) ∧ Code.find c = some code ∧
          reply = .error code) ∨
        ∃ result o, m.get "status" = some (.str "ok") ∧ m.get "result" = some result ∧
          decodeResult codec request result = some o ∧ reply = .output o) := by
  unfold decodeResponse at h
  simp only [Option.bind_eq_bind, Option.bind_eq_some_iff] at h
  obtain ⟨m, hm, _, -, _, -, _, -, _, -, _, -, _, -, _, -, _, -, _, -, _, -, hrest⟩ := h
  have hdoc : doc = .obj m := by
    cases doc with
    | obj members =>
      cases hm
      rfl
    | _ => cases hm
  refine ⟨m, hdoc, ?_⟩
  split at hrest
  · cases hrest
  rename_i henvelope
  refine ⟨by simpa using henvelope, ?_⟩
  split at hrest
  · rename_i hstatus
    simp only [Option.bind_eq_some_iff, Option.map_eq_some_iff] at hrest
    obtain ⟨_, -, x, hx, c, hc, code, hcode, hreply⟩ := hrest
    rw [text_str hc] at hx
    exact .inl ⟨code, c, hstatus, hx, hcode, hreply.symm⟩
  · rename_i hstatus
    simp only [Option.bind_eq_some_iff, Option.map_eq_some_iff] at hrest
    obtain ⟨_, -, result, hresult, o, ho, hreply⟩ := hrest
    exact .inr ⟨result, o, hstatus, hresult, ho, hreply.symm⟩
  · cases hrest

theorem member_some {selected : Option String} (h : member v = some selected) : v = optional selected := by
  have hident : ∀ w, (ident w).map some = some selected → w = optional selected := by
    intro w hw
    obtain ⟨s, hs, rfl⟩ := Option.map_eq_some_iff.1 hw
    exact (ident_str hs).1
  cases v with
  | null =>
    cases h
    rfl
  | _ => exact hident _ h

theorem optional_inj {a b : Option String} (h : optional a = optional b) : a = b := by
  cases a <;> cases b <;> cases h <;> rfl

/-- What is read of an answer to a question. -/
theorem llmOutput_some {o : Output} (h : llmOutput candidates v = some o) :
    ∃ (m : Mapping Json) (t : String) (selected : Option String), v = .obj m ∧ m.get "text" = some (.str t) ∧
      m.get "candidate_id" = some (optional selected) ∧ (∀ s ∈ selected, s ∈ candidates) ∧ o = .llm t selected := by
  unfold llmOutput at h
  simp only [Option.bind_eq_bind, Option.bind_eq_some_iff] at h
  obtain ⟨m, hm, x, hx, selected, hselected, hrest⟩ := h
  split at hrest
  · rename_i hmember
    simp only [Option.bind_eq_some_iff] at hrest
    obtain ⟨y, hy, t, ht, ho⟩ := hrest
    cases ho
    refine ⟨m, t, selected, (closed_keys hm).1, text_str ht ▸ hy, member_some hselected ▸ hx, fun s hs => ?_, rfl⟩
    exact List.contains_iff_mem.1 ((Option.all_eq_true _ _).1 hmember s hs)
  · cases hrest

theorem score_some {y : Score} (h : score v = some y) :
    ∃ m : Mapping Json, v = .obj m ∧ m.get "candidate_id" = some (.str y.candidateId) ∧ m.get "score" = some y.score := by
  unfold score at h
  simp only [Option.bind_eq_bind, Option.bind_eq_some_iff] at h
  obtain ⟨m, hm, s, hs, hrest⟩ := h
  refine ⟨m, (closed_keys hm).1, ?_⟩
  have hmade : ((m.get "candidate_id").bind fun x => (ident x).bind fun id => some (Score.mk id s)) = some y := by
    split at hrest
    · split at hrest
      · exact hrest
      · cases hrest
    · split at hrest
      · exact hrest
      · cases hrest
    · cases hrest
  simp only [Option.bind_eq_some_iff] at hmade
  obtain ⟨x, hx, id, hid, hy⟩ := hmade
  cases hy
  exact ⟨(ident_str hid).1 ▸ hx, hs⟩

/-- **What an evaluation of the candidates is.** -/
structure Evaluates (candidates : List String) (scores : List Score) (selected : Option String) : Prop where
  once : (scores.map Score.candidateId).Nodup
  all : ∀ id, id ∈ scores.map Score.candidateId ↔ id ∈ candidates
  selected : ∀ s ∈ selected, s ∈ candidates

theorem evaluatorOutput_some {o : Output} (h : evaluatorOutput candidates v = some o) :
    ∃ (m : Mapping Json) (items : List Json) (scores : List Score) (selected : Option String), v = .obj m ∧
      m.get "scores" = some (.arr items) ∧ List.Forall₂ (fun x y => score x = some y) items scores ∧
      m.get "selected_id" = some (optional selected) ∧ Evaluates candidates scores selected ∧
      o = .evaluation scores selected := by
  unfold evaluatorOutput at h
  simp only [Option.bind_eq_bind, Option.bind_eq_some_iff] at h
  obtain ⟨m, hm, x, hx, scores, hscores, y, hy, selected, hselected, hrest⟩ := h
  split at hrest
  · rename_i hfits
    obtain ⟨honce, hsub, hsup, hmember⟩ := hfits
    cases hrest
    obtain ⟨items, rfl, -, -, hitems⟩ := array_items hscores
    have hall : ∀ id, id ∈ scores.map Score.candidateId ↔ id ∈ candidates := fun id => ⟨hsub id, hsup id⟩
    refine ⟨m, items, scores, selected, (closed_keys hm).1, hx, hitems, member_some hselected ▸ hy, ⟨honce, hall, ?_⟩, rfl⟩
    exact fun s hs => (hall s).1 (List.contains_iff_mem.1 ((Option.all_eq_true _ _).1 hmember s hs))
  · cases hrest

/-- **What an accepted audio is.** -/
structure Plays (pcm : Bytes) : Prop where
  nonempty : pcm ≠ []
  even : pcm.length % 2 = 0
  limit : pcm.length ≤ pcmLimit

theorem ttsOutput_some {o : Output} (h : ttsOutput codec v = some o) :
    ∃ (m : Mapping Json) (pcm : Bytes), v = .obj m ∧ m.get "pcm_b64" = some (.str (codec.b64encode pcm)) ∧
      codec.b64decode (codec.b64encode pcm) = some pcm ∧ Plays pcm ∧ o = .speech pcm := by
  unfold ttsOutput at h
  simp only [Option.bind_eq_bind, Option.bind_eq_some_iff] at h
  obtain ⟨m, hm, x, hx, encoded, hencoded, hrest⟩ := h
  split at hrest
  · cases hrest
  · obtain ⟨pcm, hpcm, hrest⟩ := Option.bind_eq_some_iff.1 hrest
    split at hrest
    · rename_i hfits
      obtain ⟨hpositive, hlimit, heven, hcanonical⟩ := hfits
      cases hrest
      refine ⟨m, pcm, (closed_keys hm).1, ?_, ?_, ⟨List.length_pos_iff.1 hpositive, heven, hlimit⟩, rfl⟩
      · rw [hcanonical, ← text_str hencoded]
        exact hx
      · rw [hcanonical]
        exact hpcm
    · cases hrest

/-- **A reply fits a request**, as it was read. -/
structure Fits (codec : Codec) (request : Request) (m : Mapping Json) (reply : Reply) : Prop where
  envelope : ∀ item ∈ envelope request, m.get item.1 = some item.2
  llm : ∀ t selected, reply = .output (.llm t selected) → ∃ question context candidates,
    request.payload = .llm question context candidates ∧ ∀ s ∈ selected, s ∈ candidates
  evaluation : ∀ scores selected, reply = .output (.evaluation scores selected) → ∃ context candidates,
    request.payload = .evaluation context candidates ∧ Evaluates (candidates.map Candidate.candidateId) scores selected
  speech : ∀ pcm, reply = .output (.speech pcm) → (∃ t voice, request.payload = .speech t voice) ∧ Plays pcm ∧
    ∃ result : Mapping Json, m.get "result" = some (.obj result) ∧
      result.get "pcm_b64" = some (.str (codec.b64encode pcm)) ∧ codec.b64decode (codec.b64encode pcm) = some pcm

/-- What is accepted fits the request. -/
theorem decodeResponse_fits {reply : Reply} (h : decodeResponse codec request doc = some reply) :
    ∃ m : Mapping Json, doc = .obj m ∧ Fits codec request m reply := by
  obtain ⟨m, hdoc, henvelope, hshape⟩ := decodeResponse_some h
  have hitems : ∀ item ∈ envelope request, m.get item.1 = some item.2 := fun item hitem =>
    of_decide_eq_true (List.all_eq_true.1 henvelope item hitem)
  refine ⟨m, hdoc, ?_⟩
  rcases hshape with ⟨code, c, -, -, -, rfl⟩ | ⟨result, o, -, hresult, ho, rfl⟩
  · exact ⟨hitems, fun _ _ hr => (by cases hr), fun _ _ hr => (by cases hr), fun _ hr => by cases hr⟩
  unfold decodeResult at ho
  split at ho
  · rename_i question context candidates hpayload
    obtain ⟨r, t, selected, -, -, -, hmember, rfl⟩ := llmOutput_some ho
    refine ⟨hitems, fun t' selected' hr => ?_, fun _ _ hr => (by cases hr), fun _ hr => by cases hr⟩
    cases hr
    exact ⟨question, context, candidates, hpayload, hmember⟩
  · rename_i context candidates hpayload
    obtain ⟨r, items, scores, selected, -, -, -, -, hevaluates, rfl⟩ := evaluatorOutput_some ho
    refine ⟨hitems, fun _ _ hr => (by cases hr), fun scores' selected' hr => ?_, fun _ hr => by cases hr⟩
    cases hr
    exact ⟨context, candidates, hpayload, hevaluates⟩
  · rename_i t voice hpayload
    obtain ⟨r, pcm, rfl, hencoded, hdecoded, hplays, rfl⟩ := ttsOutput_some ho
    refine ⟨hitems, fun _ _ hr => (by cases hr), fun _ _ hr => (by cases hr), fun pcm' hr => ?_⟩
    cases hr
    exact ⟨⟨t, voice, hpayload⟩, hplays, r, hresult, hencoded, hdecoded⟩

/-! ## What is written -/

/-- **What the library does with a reply**: it loads the document that it dumped, and decodes the audio that it encoded. -/
structure Codec.Returns (codec : Codec) (request : Request) (reply : Reply) : Prop where
  loads_dumps : codec.loads (codec.dumps (reply.document codec request)) = some (reply.document codec request)
  decode_encode : ∀ pcm, reply = .output (.speech pcm) → codec.b64decode (codec.b64encode pcm) = some pcm

theorem find_text (code : Code) : Code.find code.text = some code := by cases code <;> decide

/-- The scores that are written are read as the same. -/
theorem scores_document {scores scores' : List Score}
    (h : List.Forall₂ (fun x y => score x = some y)
      (scores.map fun s => .obj [("candidate_id", .str s.candidateId), ("score", s.score)]) scores') : scores' = scores := by
  rw [List.forall₂_map_left_iff] at h
  induction h with
  | nil => rfl
  | @cons a b l l' hscore _ ih =>
    obtain ⟨m, hm, hid, hvalue⟩ := score_some hscore
    cases hm
    obtain ⟨id, value⟩ := b
    have hids : a.candidateId = id := by simpa [Mapping.get] using hid
    have hscores : a.score = value := by simpa [Mapping.get] using hvalue
    rw [ih, ← hids, ← hscores]

/-- The result that is written is read as the same. -/
theorem decodeResult_document {o o' : Output}
    (hdecode : ∀ pcm, o = .speech pcm → codec.b64decode (codec.b64encode pcm) = some pcm)
    (h : decodeResult codec request (o.document codec) = some o') : o' = o := by
  unfold decodeResult at h
  split at h
  · obtain ⟨m, t, selected, hm, htext, hselected, -, rfl⟩ := llmOutput_some h
    cases o with
    | llm t' selected' =>
      cases hm
      have htexts : t' = t := by simpa [Mapping.get] using htext
      have hchosen : optional selected' = optional selected := by simpa [Mapping.get] using hselected
      rw [htexts, optional_inj hchosen]
    | evaluation scores selected' =>
      cases hm
      simp [Mapping.get] at htext
    | speech pcm =>
      cases hm
      simp [Mapping.get] at htext
  · obtain ⟨m, items, scores, selected, hm, hscores, hitems, hselected, -, rfl⟩ := evaluatorOutput_some h
    cases o with
    | llm t' selected' =>
      cases hm
      simp [Mapping.get] at hscores
    | evaluation scores' selected' =>
      cases hm
      have hwritten : scores'.map (fun s => Json.obj [("candidate_id", .str s.candidateId), ("score", s.score)]) = items := by
        simpa [Mapping.get] using hscores
      have hchosen : optional selected' = optional selected := by simpa [Mapping.get] using hselected
      rw [← hwritten] at hitems
      rw [scores_document hitems, optional_inj hchosen]
    | speech pcm =>
      cases hm
      simp [Mapping.get] at hscores
  · obtain ⟨m, pcm, hm, hencoded, hdecoded, -, rfl⟩ := ttsOutput_some h
    cases o with
    | llm t' selected' =>
      cases hm
      simp [Mapping.get] at hencoded
    | evaluation scores' selected' =>
      cases hm
      simp [Mapping.get] at hencoded
    | speech pcm' =>
      cases hm
      have htexts : codec.b64encode pcm' = codec.b64encode pcm := by simpa [Mapping.get] using hencoded
      -- one text is decoded to one audio
      have hsame : some pcm = some pcm' := by
        rw [← hdecoded, ← htexts]
        exact hdecode pcm' rfl
      cases hsame
      rfl

/-- **A reply that is written** is read as the same. -/
theorem decodeResponse_document {reply reply' : Reply} (hcodec : codec.Returns request reply)
    (h : decodeResponse codec request (reply.document codec request) = some reply') : reply' = reply := by
  obtain ⟨m, hm, -, hshape⟩ := decodeResponse_some h
  cases reply with
  | error code =>
    cases hm
    rcases hshape with ⟨code', c, -, hcode, hfind, rfl⟩ | ⟨result, o, hstatus, -⟩
    · have htexts : code.text = c := by simpa [Mapping.get, envelope] using hcode
      rw [← htexts, find_text] at hfind
      rw [Option.some.inj hfind]
    · simp [Mapping.get, envelope] at hstatus
  | output o =>
    cases hm
    rcases hshape with ⟨code', c, hstatus, -⟩ | ⟨result, o', -, hresult, ho, rfl⟩
    · simp [Mapping.get, envelope] at hstatus
    · have hwritten : o.document codec = result := by simpa [Mapping.get, envelope] using hresult
      rw [← hwritten] at ho
      rw [decodeResult_document (fun pcm hpcm => hcodec.decode_encode pcm (congrArg Reply.output hpcm)) ho]

/-- **Replies.** Where a reply is written to a request, what is written is parsed as the same reply; and whatever bytes
are accepted as a reply fit the request. -/
theorem reply_round_trip {reply : Reply} (hcodec : codec.Returns request reply) :
    (∀ bytes, responseBytes codec request (some reply) = .ok bytes →
      parseResponse codec (some bytes) request = .ok reply) ∧
    ∀ raw r, parseResponse codec (some raw) request = .ok r →
      ∃ m : Mapping Json, codec.loads raw = some (.obj m) ∧ Fits codec request m r := by
  refine ⟨fun bytes hbytes => ?_, fun raw r hr => ?_⟩
  · unfold responseBytes at hbytes
    dsimp only at hbytes
    split at hbytes
    · rename_i reply' hparse
      cases hbytes
      obtain ⟨doc, hread, -, hdecode⟩ := parseResponse_ok hparse
      rw [hcodec.loads_dumps] at hread
      cases hread
      rw [hparse, decodeResponse_document hcodec hdecode]
    · cases hbytes
  · obtain ⟨doc, hread, -, hdecode⟩ := parseResponse_ok hr
    obtain ⟨m, rfl, hfits⟩ := decodeResponse_fits hdecode
    exact ⟨m, hread, hfits⟩

namespace Example

/-- An evaluation that was asked for. -/
def evaluating : Request := ⟨"r", "p", "m", 1, 5, .evaluation "c" [⟨"a", "A"⟩, ⟨"b", "B"⟩]⟩

/-- The reply to it. -/
def evaluated : Reply := .output (.evaluation [⟨"b", .float (1 / 2)⟩, ⟨"a", .int 1⟩] (some "a"))

/-- What is written of the reply. -/
def evaluatedText : Bytes :=
  ("\x7b\"version\":1,\"request_id\":\"r\",\"service\":\"evaluator\",\"provider_id\":\"p\",\"model_version\":\"m\"," ++
    "\"catalog_version\":1,\"status\":\"ok\",\"result\":\x7b\"scores\":[\x7b\"candidate_id\":\"b\",\"score\":0.5\x7d," ++
    "\x7b\"candidate_id\":\"a\",\"score\":1\x7d],\"selected_id\":\"a\"\x7d\x7d").toUTF8.data.toList

/-- JSON, of the reply. -/
def evaluatedCodec : Codec where
  loads b := if b = evaluatedText then some (evaluated.document speechCodec evaluating) else none
  dumps j := if j = evaluated.document speechCodec evaluating then evaluatedText else []
  b64decode _ := none
  b64encode _ := ""

end Example

theorem reply_round_trip_evaluated :
    responseBytes Example.evaluatedCodec Example.evaluating (some Example.evaluated) = .ok Example.evaluatedText ∧
    parseResponse Example.evaluatedCodec (some Example.evaluatedText) Example.evaluating = .ok Example.evaluated ∧
    ∀ raw r, parseResponse Example.evaluatedCodec (some raw) Example.evaluating = .ok r →
      ∃ m : Mapping Json, Example.evaluatedCodec.loads raw = some (.obj m) ∧
        Fits Example.evaluatedCodec Example.evaluating m r := by
  have hcodec : Example.evaluatedCodec.Returns Example.evaluating Example.evaluated :=
    ⟨by decide +kernel, fun pcm hpcm => by cases hpcm⟩
  have hwritten : responseBytes Example.evaluatedCodec Example.evaluating (some Example.evaluated) =
      .ok Example.evaluatedText := by decide +kernel
  obtain ⟨hread, hfits⟩ := reply_round_trip hcodec
  exact ⟨hwritten, hread _ hwritten, hfits⟩

end Gateway

end Arhugula
