import Mathlib.Data.List.DropRight
import Arhugula.Sequence.Bisect
import Arhugula.Spec.Strings

/-!
# Captured output (`ops/orchestration/artifacts.py`)

A run keeps its output on disk and publishes a receipt. `finding_spans` reads a log in bounded chunks; `capture`
checks before the launch that a receipt has room, and fits a summary into what is left. A `str` is a list of code
points here, for paths that are not text; the digest and the decoding of bytes are parameters, and so is the `repr` of
a `float`, which is short.
-/

namespace Arhugula

namespace Artifacts

open Strings

/-! ## Findings -/

/-- A byte that is a letter, in lower case. -/
def lower (b : UInt8) : UInt8 := if 65 ≤ b ∧ b ≤ 90 then b + 32 else b

/-- The bytes of a literal. -/
def literal (s : String) : List UInt8 := s.toList.map fun c => c.toNat.toUInt8

/-- The words of `FINDING`. -/
def words : List (List UInt8) := [literal "error", literal "fail", literal "traceback", literal "passed"]

/-- `ran \d+` matches here: one digit is enough. -/
def isRan (text : List UInt8) : Bool :=
  (literal "ran ").isPrefixOf text && ((text.drop 4).head?.any fun b => 48 ≤ b && b ≤ 57)

/-- One of the alternatives without anchors matches here. -/
def startsFinding (text : List UInt8) : Bool := words.any (·.isPrefixOf text) || isRan text

/-- `^OK$`: the whole text, but for a newline at its end. -/
def isOk (text : List UInt8) : Bool := text = literal "ok" || text = literal "ok\n"

/-- `FINDING.search`. -/
def search (text : List UInt8) : Bool :=
  let lowered := text.map lower
  isOk lowered || lowered.tails.any startsFinding

/-- `KEYWORD_OVERLAP`. -/
def keywordOverlap : ℕ := 16

/-- A newline. -/
def newline : UInt8 := 10

/-- `readline`: at most so many bytes, up to a newline. -/
def readline : ℕ → List UInt8 → List UInt8
  | 0, _ | _, [] => []
  | n + 1, b :: rest => if b = newline then [b] else b :: readline n rest

/-- `iter(lambda: source.readline(1024), b"")`, at most so many chunks. -/
def chunks : ℕ → List UInt8 → List (List UInt8)
  | 0, _ => []
  | n + 1, rest =>
    match readline 1024 rest with
    | [] => []
    | chunk => chunk :: chunks n (rest.drop chunk.length)

/-- The variables of `finding_spans`, with what it yielded. -/
structure Scan where
  tell : ℕ
  start : ℕ
  matched : Bool
  carry : List UInt8
  spans : List (ℕ × ℕ)

/-- The body of the loop. -/
def Scan.step (s : Scan) (chunk : List UInt8) : Scan :=
  let tell := s.tell + chunk.length
  let matched := s.matched || search (s.carry ++ chunk)
  if chunk.getLast? = some newline then
    ⟨tell, tell, false, [], if matched then s.spans ++ [(s.start, tell - 1)] else s.spans⟩
  else ⟨tell, s.start, matched, chunk.rtake keywordOverlap, s.spans⟩

/-- What is yielded after the loop. -/
def Scan.finish (s : Scan) : List (ℕ × ℕ) := if s.matched then s.spans ++ [(s.start, s.tell)] else s.spans

/-- `finding_spans`. There are no more chunks than bytes. -/
def findingSpans (content : List UInt8) : List (ℕ × ℕ) :=
  ((chunks content.length content).foldl Scan.step ⟨0, 0, false, [], []⟩).finish

/-- The bytes of a span, as `copy_span` copies them. -/
def slice (content : List UInt8) (span : ℕ × ℕ) : List UInt8 := (content.take span.2).drop span.1

/-- `write_findings`: what is written, and how many lines. -/
def writeFindings (streams : List (List UInt8)) : List UInt8 × ℕ :=
  let lines := streams.flatMap fun content => (findingSpans content).map (slice content)
  (lines.flatMap (· ++ [newline]), lines.length)

/-- `output_tail`. -/
def outputTail (streams : List (List UInt8)) (size : ℕ) : List UInt8 :=
  streams.foldl (fun tail content => (tail ++ content.rtake size).rtake size) []

/-! ## Printing -/

/-- A Python `str`: code points. -/
abbrev Str := List ℕ

/-- A literal. -/
def str (s : String) : Str := s.toList.map Char.toNat

/-- `\u` and four digits. -/
def unicode (n : ℕ) : Text := '\\' :: 'u' :: (Nat.toDigits 16 n).leftpad 4 '0'

/-- A character, as `json.dumps` writes it. -/
def escape (c : ℕ) : Text :=
  if c = 34 then ['\\', '"']
  else if c = 92 then ['\\', '\\']
  else if c = 10 then ['\\', 'n']
  else if c = 13 then ['\\', 'r']
  else if c = 9 then ['\\', 't']
  else if c = 12 then ['\\', 'f']
  else if c = 8 then ['\\', 'b']
  else if 32 ≤ c ∧ c ≤ 126 then [Char.ofNat c]
  else if c < 65536 then unicode c
  else unicode (55296 + (c - 65536) / 1024) ++ unicode (56320 + (c - 65536) % 1024)

/-- `json.dumps` of a `str`. -/
def quote (s : Str) : Text := '"' :: s.flatMap escape ++ ['"']

/-- `json.dumps` of an `int`. -/
def digits (n : ℤ) : Text := if n < 0 then '-' :: Nat.toDigits 10 n.natAbs else Nat.toDigits 10 n.natAbs

/-- `json.dumps` of a `float`: no `repr` of a `float` is longer than this. -/
structure FloatRepr where
  text : Text
  short : text.length ≤ 24

/-- `json.dumps` of a `dict` whose values are printed. -/
def object (members : List (String × Text)) : Text :=
  '{' :: List.intercalate [',', ' '] (members.map fun m => quote (str m.1) ++ [':', ' '] ++ m.2) ++ ['}']

/-- `json.dumps` of a `bool`. -/
def boolean (b : Bool) : Text := if b then "true".toList else "false".toList

/-- `json.dumps` of an `int` or `None`. -/
def optional : Option ℤ → Text
  | some n => digits n
  | none => "null".toList

/-- `encoded`. -/
def encoded (s : Str) : ℤ := (quote s).length - 2

/-! ## The summary -/

/-- `part`. -/
def part (keepHead : Bool) (s : Str) (length : ℕ) : Str :=
  if keepHead then s.take length else s.drop (s.length - length)

/-- `fit`. There are no more halvings than characters. -/
def fit (s : Str) (budget : ℤ) (keepHead : Bool) : Str :=
  part keepHead s (Sequence.bisect (fun length => encoded (part keepHead s length) ≤ budget) s.length 0 s.length)

/-- `TAIL_HEADER`. -/
def tailHeader : Str := str "\n[bounded tail]\n"

/-- `summary`: the text, and whether it leaves out findings. -/
def summary (decode : List UInt8 → Str) (findings tail : List UInt8) (budget : ℤ) : Str × Bool :=
  let head := decode (findings.take budget.toNat)
  let shown := fit head ((budget - encoded tailHeader) / 2) true
  let latest := fit (decode tail) (budget - encoded tailHeader - encoded shown) false
  (shown ++ tailHeader ++ latest, !(decide ((findings.length : ℤ) ≤ budget) && decide (shown = head)))

/-! ## The receipt -/

/-- `store_kind`. -/
inductive Store where
  | macShare | testOnly
  deriving DecidableEq

def Store.text : Store → String
  | macShare => "mac_share"
  | testOnly => "test_only"

/-- `terminal`. -/
inductive Terminal where
  | exited | timeout | interrupted | descendantsActive | launchFailed
  deriving DecidableEq

def Terminal.text : Terminal → String
  | exited => "exited"
  | timeout => "timeout"
  | interrupted => "interrupted"
  | descendantsActive => "descendants_active"
  | launchFailed => "launch_failed"

/-- A `returncode`: a status of `waitpid`, or a signal, negated. -/
structure ExitCode where
  code : ℤ
  bounded : -256 < code ∧ code < 256

/-- What `communicate` did. -/
inductive Communicated where
  | exited (code : ExitCode) | timeout | interrupted

/-- A process that was started. `communicated` is `none` where an `OSError` came before there was a code; `killed` says
that its group was active and was signalled, `failed` that an `OSError` came later. -/
structure Process where
  pid : ℕ
  communicated : Option Communicated
  killed : Bool
  failed : Bool

/-- `terminal` and `code`, of what `communicate` did. -/
def Communicated.ending : Communicated → Terminal × ℤ
  | exited c => (.exited, c.code)
  | timeout => (.timeout, 124)
  | interrupted => (.interrupted, 130)

/-- `terminal` and `code`, at the end. -/
def ending : Option Process → Terminal × Option ℤ
  | none => (.launchFailed, none)
  | some p =>
    match p.communicated with
    | none => (.launchFailed, none)
    | some c =>
      let (terminal, code) := if p.killed && c.ending.1 = .exited then (.descendantsActive, 125) else c.ending
      (if p.failed then .launchFailed else terminal, some code)

/-- A digest, in hexadecimal digits. -/
structure Digest where
  hex : Str
  size : hex.length = 64
  plain : ∀ c ∈ hex, 48 ≤ c ∧ c ≤ 57 ∨ 97 ≤ c ∧ c ≤ 102

/-- `"0" * 64`. -/
def Digest.zero : Digest where
  hex := List.replicate 64 48
  size := by simp
  plain c hc := by
    rw [List.eq_of_mem_replicate hc]
    exact .inl ⟨le_rfl, by decide⟩

/-- `file_binding`. -/
structure Binding where
  path : Str
  bytes : ℕ
  sha256 : Digest

def Binding.dumps (b : Binding) : Text :=
  object [("path", quote b.path), ("bytes", digits b.bytes), ("sha256", quote b.sha256.hex)]

/-- What is known before the launch. -/
structure Launch where
  store : Store
  cwd : Str
  directory : Str
  argv : List Str

/-- The files of a run. -/
inductive File where
  | argv | stdout | stderr | findings
  deriving DecidableEq

def File.name : File → String
  | argv => "/argv.json"
  | stdout => "/stdout.log"
  | stderr => "/stderr.log"
  | findings => "/findings.log"

/-- The path of a file of the run. -/
def Launch.path (l : Launch) (f : File) : Str := l.directory ++ str f.name

/-- What is measured of a run. -/
structure Measured where
  exit : Option ℤ
  terminal : Terminal
  group : Option ℤ
  elapsed : FloatRepr
  binding : File → ℕ × Digest
  count : ℕ

/-- `publishable`, printed. -/
def Launch.publishable (l : Launch) (m : Measured) (text : Str) (truncated : Bool) : Text :=
  let bound (f : File) : Text := Binding.dumps ⟨l.path f, (m.binding f).1, (m.binding f).2⟩
  object [("version", digits 2), ("store", quote (str l.store.text)), ("cwd", quote l.cwd), ("exit", optional m.exit),
    ("terminal", quote (str m.terminal.text)), ("owned_process_group", optional m.group),
    ("elapsed_seconds", m.elapsed.text), ("argv", bound .argv), ("stdout", bound .stdout), ("stderr", bound .stderr),
    ("findings", bound .findings), ("findings_count", digits m.count), ("summary", quote text),
    ("summary_truncated", boolean truncated), ("receipt", quote (l.directory ++ str "/receipt.json"))]

/-- What is measured before the launch. -/
def unmeasured : Measured where
  exit := some 0
  terminal := .descendantsActive
  group := some 0
  elapsed := ⟨"0.0".toList, by decide⟩
  binding _ := (0, .zero)
  count := 0

/-- `MODEL_RECEIPT_LIMIT`. -/
def modelReceiptLimit : ℤ := 16 * 1024

/-- `SUMMARY_BUDGET`. -/
def summaryBudget : ℤ := 4096

/-- `NUMERIC_SLACK`. -/
def numericSlack : ℤ := 256

/-- The check before the launch. -/
def Launch.hasRoom (l : Launch) : Bool :=
  (l.publishable unmeasured [] false).length + numericSlack + encoded tailHeader ≤ modelReceiptLimit

/-- `json.dumps(argv).encode()`. -/
def Launch.argvBytes (l : Launch) : List UInt8 :=
  ('[' :: List.intercalate [',', ' '] (l.argv.map quote) ++ [']']).map fun c => c.toNat.toUInt8

/-- A run: how its process ended, how long it took, and its logs. -/
structure Run where
  launch : Launch
  process : Option Process
  elapsed : FloatRepr
  stdout : List UInt8
  stderr : List UInt8

namespace Run

variable (sha256 : List UInt8 → Digest) (decode : List UInt8 → Str) (r : Run)

/-- `paths`. -/
def streams : List (List UInt8) := [r.stdout, r.stderr]

/-- The content of a file of the run. -/
def content : File → List UInt8
  | .argv => r.launch.argvBytes
  | .stdout => r.stdout
  | .stderr => r.stderr
  | .findings => (writeFindings r.streams).1

/-- What `capture` measures. -/
def measured : Measured where
  exit := (ending r.process).2
  terminal := (ending r.process).1
  group := r.process.map fun p => (p.pid : ℤ)
  elapsed := r.elapsed
  binding f := ((r.content f).length, sha256 (r.content f))
  count := (writeFindings r.streams).2

/-- What is left for the summary. -/
def budget : ℤ := min summaryBudget (modelReceiptLimit - (r.launch.publishable (r.measured sha256) [] false).length)

/-- The summary of a run. -/
def summarized : Str × Bool :=
  summary decode (r.content .findings) (outputTail r.streams modelReceiptLimit.toNat) (r.budget sha256)

/-- **The receipt that `capture` publishes**, printed. -/
def receipt : Text :=
  r.launch.publishable (r.measured sha256) (r.summarized sha256 decode).1 (r.summarized sha256 decode).2

end Run

end Artifacts

end Arhugula
