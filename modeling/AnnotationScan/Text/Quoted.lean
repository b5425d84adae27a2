import AnnotationScan.Text.Printable

/-!
# Quoted characters and strings

A quoted text shows what it holds without ambiguity: controls by their escapes, the closing quote
and the backslash behind a backslash, and every character that is not printable by its code point.
-/

namespace AnnotationScan.Text

/-- The code point of a character, in hexadecimal digits inside braces. -/
def codePoint (c : Char) : String :=
  "\\u\x7b" ++ String.ofList (Nat.toDigits 16 c.toNat) ++ "\x7d"

/-- A character as it stands between two quotes `quote`. -/
def escape (quote c : Char) : String :=
  if c = '\x00' then "\\0"
  else if c = '\t' then "\\t"
  else if c = '\r' then "\\r"
  else if c = '\n' then "\\n"
  else if c = quote || c = '\\' then String.ofList ['\\', c]
  else if isPrintable c then String.ofList [c]
  else codePoint c

def quotedChar (c : Char) : String :=
  "'" ++ escape '\'' c ++ "'"

def quotedString (s : String) : String :=
  "\"" ++ s.foldl (fun done c => done ++ escape '"' c) "" ++ "\""

end AnnotationScan.Text
