import RefCache.Text.Visible

/-! # Descriptions

How the library writes a value out for a reader: strings in quotes, records with named fields, lists in
brackets. A description is one line. -/

namespace RefCache.Text

/-- How a character is written inside quotes. Quotes, backslashes and the commonest controls have a letter
of their own after a backslash; any other character that does not show is written by its code point. -/
def escaped : Char → List Char
  | '"' => ['\\', '"']
  | '\\' => ['\\', '\\']
  | '\t' => ['\\', 't']
  | '\n' => ['\\', 'n']
  | '\r' => ['\\', 'r']
  | '\x00' => ['\\', '0']
  | c =>
    if shows c then [c]
    else ['\\', 'u', '\x7b'] ++ Nat.toDigits 16 c.toNat ++ ['\x7d']

/-- A string in double quotes, in which every character shows. -/
def quoted (s : String) : String :=
  String.ofList ('"' :: s.toList.flatMap escaped ++ ['"'])

/-- Items in brackets, separated by commas. -/
def list (items : List String) : String :=
  "[" ++ String.intercalate ", " items ++ "]"

/-- Two items in parentheses. -/
def pair (a b : String) : String :=
  "(" ++ a ++ ", " ++ b ++ ")"

/-- A record: its name, then its fields in braces, each as a name and a value. -/
def record (name : String) (fields : List (String × String)) : String :=
  let body := fields.map fun f => f.1 ++ ": " ++ f.2
  name ++ " \x7b " ++ String.intercalate ", " body ++ " \x7d"

/-- A truth value. -/
def truth (b : Bool) : String :=
  if b then "true" else "false"

/-- A number in decimal digits. -/
def number (n : Nat) : String :=
  n.repr

/-- A signed number in decimal digits. -/
def integer (i : Int) : String :=
  if i < 0 then "-" ++ i.natAbs.repr else i.natAbs.repr

/-- The decimal places of `n / 10 ^ places`, without the zeros at the end. -/
def places (n width : Nat) : String :=
  let digits := (n.repr).toList
  -- the zeros in front belong to the fraction, those at the end do not
  let padded := List.replicate (width - digits.length) '0' ++ digits
  String.ofList (padded.reverse.dropWhile (· = '0')).reverse

/-- A whole part and `fraction / 10 ^ width`, with a point only when the fraction is not zero. -/
def decimal (whole fraction width : Nat) : String :=
  let tail := places fraction width
  if tail.isEmpty then whole.repr else whole.repr ++ "." ++ tail

end RefCache.Text
