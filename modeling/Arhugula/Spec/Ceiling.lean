import Arhugula.Spec.Strings
import Arhugula.Spec.Watch

/-!
# Context ceilings (`ops/orchestration/ceiling.py`, `ops/orchestration/vendor/memento/ceiling_config.py`)

How much context a session may use. The layers of a configuration set the soft threshold, each a move on what the ones
beneath it set (`folded`); the row of a lane and what is measured of it bound the hard close (`Bound.resolve`); each
completed turn is decided from a measurement and a bound (`Measurement.decide`).

What decodes the bytes of a file, and how a text is quoted in a message, are parameters. `Option ℤ` is a ceiling that
`math.inf` switches off.
-/

namespace Arhugula

namespace Ceiling

open Strings Watch

/-- What ends a decision: `CeilingHold`, `sys.exit`, `int` of more digits than it takes, and an integer that is added
to `math.inf` and is no float. -/
inductive Exc where
  | hold (text : Text)
  | exit (text : Text)
  | value
  | overflow
  deriving DecidableEq

/-- `bytes.decode`, or what its error says; `repr` of a text. -/
structure Host where
  decode : List UInt8 → Except Text Text
  repr : Text → Text

/-! ## Layers -/

/-- A layer: its path, and the bytes of the file, where there is one. -/
structure Layer where
  path : Text
  data : Option (List UInt8)

/-- A ceiling as one layer wrote it. -/
structure Written where
  source : Text
  text : Text
  deriving DecidableEq

/-- A number in a text. -/
def decimal (n : ℤ) : Text := (toString n).toList

/-- Digits by threes, last one first. -/
def grouped : Text → Text
  | a :: b :: c :: d :: t => a :: b :: c :: ',' :: grouped (d :: t)
  | t => t

/-- `:,`, of a negative number. -/
def thousands (n : ℤ) : Text := '-' :: (grouped (decimal n.natAbs).reverse).reverse

/-- `CEILING_KEY`. -/
def ceilingKey : Text := "ceiling".toList

/-- `DISABLING_WORD`. -/
def disablingWord : Text := "off".toList

/-- `DEFAULT_CEILING`. -/
def defaultCeiling : ℤ := 350000

/-- `GRACE`. -/
def maxGrace : ℤ := 100000

/-- `lines_in`. -/
def linesIn (h : Host) (layer : Layer) : Except Exc (List Text) :=
  match layer.data with
  | none => .ok []
  | some bytes =>
    match h.decode bytes with
    | .ok text => .ok (splitlines text)
    | .error refusal => .error (.exit ("memento config: ".toList ++ layer.path ++
        " holds bytes that are not text, so no line of it can set a ceiling: ".toList ++ refusal ++
        ". Fix it or remove it.".toList))

/-- Where a setting stands. -/
def place (path : Text) (number : ℕ) : Text := path ++ " line ".toList ++ decimal number

/-- The lines of `ceiling_in`, from a number on. -/
def ceilingLines (h : Host) (path : Text) : ℕ → Option Written → List Text → Except Exc (Option Written)
  | _, found, [] => .ok found
  | number, found, line :: lines =>
    let stripped := strip (line.takeWhile (· ≠ '#'))
    let key := strip (stripped.takeWhile (· ≠ '='))
    let assigned := stripped.dropWhile (· ≠ '=')
    let text := strip (assigned.drop 1)
    if stripped = [] then ceilingLines h path (number + 1) found lines
    else if assigned = [] ∨ text = [] then
      .error (.exit ("memento config: ".toList ++ place path number ++
        " should read `key = value`, but reads ".toList ++ h.repr (strip line) ++ ". Fix it or remove it.".toList))
    else if key ≠ ceilingKey then
      .error (.exit ("memento config: ".toList ++ place path number ++ " sets ".toList ++ h.repr key ++
        ", which memento has no such setting for. It reads: ".toList ++ ceilingKey ++ ".".toList))
    else
      match found with
      | some first =>
        .error (.exit ("memento config: ".toList ++ path ++ " sets ".toList ++ h.repr key ++ " twice, at ".toList ++
          first.source ++ " and line ".toList ++ decimal number ++ ". Keep the one you meant.".toList))
      | none => ceilingLines h path (number + 1) (some ⟨place path number, text⟩) lines

/-- `ceiling_in`. -/
def ceilingIn (h : Host) (layer : Layer) : Except Exc (Option Written) := do
  ceilingLines h layer.path 1 none (← linesIn h layer)

/-- The move a layer makes on the ceiling beneath it. -/
inductive Move where
  | off
  | count (n : ℤ)
  | shift (n : ℤ)
  deriving DecidableEq

/-- `[0-9]`. -/
def isDigit (c : Char) : Bool := 48 ≤ c.toNat && c.toNat ≤ 57

/-- `[0-9]+(?:_[0-9]+)*\Z`. -/
def isNumber (t : Text) : Bool := (t.splitOn '_').all fun part => part ≠ [] && part.all isDigit

/-- `int` of the digits of a text, at most 4300 of them. -/
def magnitude (t : Text) : Except Exc ℤ :=
  let digits := t.filter (· ≠ '_')
  if 4300 < digits.length then .error .value
  else .ok (digits.foldl (fun n c => 10 * n + (c.toNat - 48 : ℕ)) (0 : ℕ))

/-- `parse_ceiling`. -/
def parseCeiling (h : Host) (written : Written) : Except Exc Move :=
  if written.text.map Char.toLower = disablingWord then .ok .off
  else
    let sign := written.text.head?.filter fun c => c = '+' || c = '-'
    let digits := if sign.isSome then written.text.drop 1 else written.text
    if !isNumber digits then
      .error (.exit ("memento config: ".toList ++ written.source ++
        " should hold a number of tokens, a signed adjustment like +100_000, or ".toList ++ disablingWord ++
        ", but reads ".toList ++ h.repr written.text ++ ". Fix it or remove it.".toList))
    else do
      let n ← magnitude digits
      if sign = some '+' then pure (.shift n) else if sign = some '-' then pure (.shift (-n)) else pure (.count n)

/-- `beneath + n`. `math.inf` takes an integer that rounds to a float. -/
def raise (beneath : Option ℤ) (n : ℤ) : Except Exc (Option ℤ) :=
  match beneath with
  | some m => .ok (some (m + n))
  | none => if n.natAbs < 2 ^ 1024 - 2 ^ 970 then .ok none else .error .overflow

/-- What moves resolve to, topmost first. A count and `off` do not ask for what is beneath. -/
def resolved : List Move → Except Exc (Option ℤ)
  | [] => .ok (some defaultCeiling)
  | .off :: _ => .ok none
  | .count n :: _ => .ok (some n)
  | .shift n :: moves => do raise (← resolved moves) n

/-- `folded`. -/
def folded (h : Host) (layers : List Written) : Except Exc (Option ℤ) := do
  let moves ← layers.mapM (parseCeiling h)
  let ceiling ← resolved moves.reverse
  if ceiling.any (· < 0) then
    .error (.exit ("memento config: a ceiling of ".toList ++ thousands (ceiling.getD 0) ++ " tokens is set by ".toList ++
      List.intercalate ", then ".toList (layers.map Written.source) ++
      ", and a count of tokens is never negative.".toList))
  else pure ceiling

/-- What the layers set. -/
def setCeiling (h : Host) (layers : List Layer) : Except Exc (Option ℤ) := do
  let written ← layers.mapM (ceilingIn h)
  let written := written.filterMap id
  if written = [] then .error (.hold "no Memento ceiling layer is configured".toList)
  else folded h written

/-- `soft_threshold`. An exit of the grammar is a hold. -/
def softThreshold (h : Host) (layers : List Layer) : Except Exc ℤ :=
  match setCeiling h layers with
  | .error (.exit text) => .error (.hold text)
  | .error e => .error e
  | .ok none => .error (.hold "a disabled ceiling is not an admissible bound".toList)
  | .ok (some soft) => .ok soft

/-! ## Measurements and bounds -/

/-- `LaneIdentity`. -/
structure LaneIdentity where
  sessionId : Str
  model : Str
  window : ℕ
  deriving DecidableEq

/-- `Measurement`. -/
structure Measurement where
  identity : LaneIdentity
  requestInput : ℕ
  responseOutput : ℕ
  status : Watch.Status
  turns : ℕ
  deriving DecidableEq

/-- `Measurement.usage`. -/
def Measurement.usage (m : Measurement) : ℕ := m.requestInput + m.responseOutput

/-- The text of two refusals. -/
def changed : Text := "measured lane identity, model or window changed".toList

/-- What a summary tells of a lane, where it tells all of it. -/
def Measurement.known (s : Watch.State) : Option Measurement := do
  let requestInput ← s.latestRequestInputTokens
  let responseOutput ← s.latestResponseOutputTokens
  let window ← s.reportedContextWindowTokens
  let sessionId ← s.sessionId
  let model ← s.model
  if s.kind ≠ .codex ∨ s.identityConflict = true ∨ s.metricError.isSome ∨ window = 0 then none
  else pure ⟨⟨sessionId, model, window⟩, requestInput, responseOutput, s.status, s.completionCount⟩

/-- `Measurement.parse`. -/
def Measurement.parse (s : Watch.State) (expected : Option LaneIdentity) : Except Exc Measurement :=
  match Measurement.known s with
  | none => .error (.hold "lane identity, model, window or usage is unknown".toList)
  | some m => if expected.any (· ≠ m.identity) then .error (.hold changed) else .ok m

/-- `Bound`. -/
structure Bound where
  identity : LaneIdentity
  ceiling : ℤ
  reserve : ℤ
  close : ℤ
  soft : ℤ
  grace : ℤ
  deriving DecidableEq

/-- `Bound.limit`. -/
def Bound.limit (b : Bound) : ℤ := b.soft + b.grace

/-- `Bound.resolve`. -/
def Bound.resolve (h : Host) (row : Watch.Session) (layers : List Layer) (m : Measurement) (handoffReserve : ℤ) :
    Except Exc Bound := do
  let ceiling : ℤ := min (row.ceiling : ℤ) m.identity.window
  let reserve : ℤ := max (row.reserve : ℤ) handoffReserve
  let close := ceiling - reserve
  let soft ← softThreshold h layers
  if close ≤ 0 ∨ ¬ (0 < soft ∧ soft ≤ close) then
    .error (.hold ("soft threshold ".toList ++ decimal soft ++ " must be positive and at most hard close ".toList ++
      decimal close))
  else pure ⟨m.identity, ceiling, reserve, close, soft, min maxGrace (close - soft)⟩

/-! ## Decisions -/

/-- The bands of usage. -/
inductive Band where
  | under | finish | close
  deriving DecidableEq, Repr

/-- `band`. -/
def band (tokens : ℤ) (b : Bound) : Band :=
  if tokens < b.soft then .under else if tokens < b.limit then .finish else .close

/-- `INSTRUCTIONS`, formatted. -/
def instruction (tokens : ℤ) (b : Bound) : Band → Option Text
  | .under => none
  | .finish => some ("MEMENTO CEILING: ".toList ++ decimal tokens ++ " tokens reached the ".toList ++ decimal b.soft ++
      " soft threshold of this lane's ".toList ++ decimal b.ceiling ++
      " bound. Finish the current unit, admit no new work, then ".toList ++
      "release owned work and write the sealed bottle at that released boundary.".toList)
  | .close => some ("MEMENTO CEILING: ".toList ++ decimal tokens ++ " tokens reached hard close ".toList ++
      decimal b.limit ++ " of this lane's ".toList ++ decimal b.ceiling ++
      " bound. Admit no new work; close out at the next released boundary ".toList ++
      "and write the sealed bottle. The external supervisor alone clears.".toList)

/-- Why a decision does not admit. -/
inductive Reason where
  | ceiling (b : Band)
  | insufficientHeadroom
  deriving DecidableEq, Repr

/-- `Decision`. -/
structure Decision where
  turn : Str × ℕ
  band : Band
  admits : Bool
  reasons : List Reason
  instruction : Option Text
  deriving DecidableEq

/-- `decide`. -/
def Measurement.decide (m : Measurement) (b : Bound) (taskBudget : ℤ) (expected : Option LaneIdentity) :
    Except Exc Decision :=
  if expected.any (· ≠ m.identity) then .error (.hold changed)
  else if m.identity ≠ b.identity then .error (.hold "bound belongs to another lane measurement".toList)
  else
    let position := band m.usage b
    let reasons : List Reason :=
      (if position ≠ .under then [.ceiling position] else []) ++
      (if m.requestInput + taskBudget + b.reserve > b.ceiling then [.insufficientHeadroom] else [])
    .ok
      { turn := (m.identity.sessionId, m.turns)
        band := position
        admits := reasons.isEmpty
        reasons := reasons
        instruction := instruction m.usage b position }

end Ceiling

end Arhugula
