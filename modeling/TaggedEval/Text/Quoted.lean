import TaggedEval.Text.Unprintable

/-!
# Quoted text

A text between double quotes, written so that it can be told where it ends and what it holds: the
quote, the backslash and the usual control characters have short escapes, and every other character
without a visible form is written as its code point.
-/

namespace TaggedEval

namespace Quoted

/-- The code point of a character in hexadecimal, between braces. -/
def codePoint (c : Char) : List Char :=
  '\\' :: 'u' :: '\x7b' :: (Nat.toDigits 16 c.toNat ++ ['\x7d'])

/-- The written form of one character. -/
def escape (c : Char) : List Char :=
  match c with
  | '\x00' => ['\\', '0']
  | '\t' => ['\\', 't']
  | '\n' => ['\\', 'n']
  | '\r' => ['\\', 'r']
  | '"' => ['\\', '"']
  | '\\' => ['\\', '\\']
  | c => if isUnprintable c then codePoint c else [c]

def quote (s : String) : String :=
  "\"" ++ String.ofList (s.toList.flatMap escape) ++ "\""

end Quoted

end TaggedEval
