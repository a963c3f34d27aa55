import Mathlib.Data.String.Basic
import Arhugula.Spec.ConversationRecords

/-!
# Strings

The methods of `str` that the orchestration reads its texts with.
-/

namespace Arhugula

namespace Strings

/-- A Python `str` without surrogates. -/
abbrev Text := List Char

/-- Texts that are compared by `==` are equal. -/
instance : LawfulBEq Text := inferInstance

/-- Where `str.splitlines` ends a line. -/
def isBreak (c : Char) : Bool :=
  (10 ≤ c.toNat && c.toNat ≤ 13) || (28 ≤ c.toNat && c.toNat ≤ 30) || [133, 8232, 8233].contains c.toNat

/-- `splitlines`, in the middle of a line. A carriage return and a newline are one break. -/
def splitFrom (line : Text) : Text → List Text
  | [] => if line = [] then [] else [line.reverse]
  | '\r' :: '\n' :: t => line.reverse :: splitFrom [] t
  | c :: t => if isBreak c then line.reverse :: splitFrom [] t else splitFrom (c :: line) t

/-- `str.splitlines`. -/
def splitlines (t : Text) : List Text := splitFrom [] t

/-- `str.strip`. -/
def strip (t : Text) : Text :=
  ((t.dropWhile Conversation.isSpace).reverse.dropWhile Conversation.isSpace).reverse

/-- `text.rsplit("\n", 1)[1]`, of a text with a newline. -/
def lastLine (t : Text) : Text := (t.reverse.takeWhile (· ≠ '\n')).reverse

end Strings

end Arhugula
