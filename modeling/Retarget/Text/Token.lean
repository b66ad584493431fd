import Retarget.Fault

/-!
# Tokens of a line

Program text is read line by line. A line splits into quoted strings, a comment, one-character
operators and words; the rest is skipped. `lineTokens` also checks brackets and quotes, and drops
the operator `=`, which is decoration.
-/

namespace Retarget.Text

def isBlank (c : Char) : Bool :=
  let n := c.toNat
  c == ' ' || (9 ≤ n && n ≤ 13) || (28 ≤ n && n ≤ 31) || n == 0x85 || n == 0xa0 || n == 0x1680 ||
    (0x2000 ≤ n && n ≤ 0x200a) || n == 0x2028 || n == 0x2029 || n == 0x202f || n == 0x205f ||
    n == 0x3000

def strip (cs : List Char) : List Char := ((cs.dropWhile isBlank).reverse.dropWhile isBlank).reverse

def digitValue (c : Char) : Option Nat :=
  if '0' ≤ c && c ≤ '9' then some (c.toNat - '0'.toNat)
  else if 'a' ≤ c && c ≤ 'f' then some (c.toNat - 'a'.toNat + 10)
  else if 'A' ≤ c && c ≤ 'F' then some (c.toNat - 'A'.toNat + 10)
  else none

/-- Digits in the given base with single underscores between them. The flag says whether a digit
stands to the left. -/
def digits? (base : Nat) : List Char → Nat → Bool → Option Nat
  | [], acc, afterDigit => if afterDigit then some acc else none
  | c :: r, acc, afterDigit =>
    if c = '_' then if afterDigit then digits? base r acc false else none
    else
      match digitValue c with
      | some d => if d < base then digits? base r (acc * base + d) true else none
      | none => none

def digitsAfterMarker? (base : Nat) : List Char → Option Nat
  | '_' :: r => digits? base r 0 false
  | r => digits? base r 0 false

def nat? : List Char → Option Nat
  | '0' :: m :: r =>
    if m = 'x' || m = 'X' then digitsAfterMarker? 16 r
    else if m = 'o' || m = 'O' then digitsAfterMarker? 8 r
    else if m = 'b' || m = 'B' then digitsAfterMarker? 2 r
    else (digits? 10 ('0' :: m :: r) 0 false).filter (· == 0)
  | r => digits? 10 r 0 false

def signed : List Char → Bool × List Char
  | '-' :: r => (true, r)
  | '+' :: r => (false, r)
  | r => (false, r)

def integer? (s : String) : Option Int :=
  let (neg, r) := signed (strip s.toList)
  (nat? r).map fun n => if neg then -(n : Int) else n

def readInt (s : String) : Res Int := orFault (.malformed s) (integer? s)

def intIn? (base : Nat) (s : String) : Option Int :=
  let (neg, r) := signed (strip s.toList)
  (digits? base r 0 false).map fun n => if neg then -(n : Int) else n

def hexDigit (n : Nat) : Char :=
  if n < 10 then Char.ofNat ('0'.toNat + n) else Char.ofNat ('a'.toNat + (n - 10))

def hex (width n : Nat) : String :=
  let ds := (Nat.toDigits 16 n)
  String.ofList (List.replicate (width - ds.length) '0' ++ ds)

def decimal (n : Int) : String :=
  match n with
  | .ofNat k => String.ofList (Nat.toDigits 10 k)
  | .negSucc k => "-" ++ String.ofList (Nat.toDigits 10 (k + 1))

def bracketed (ss : List String) : String := "[" ++ " ".intercalate ss ++ "]"

def padLeft (width : Nat) (s : String) : String :=
  String.ofList (List.replicate (width - s.length) ' ') ++ s

def padRight (width : Nat) (s : String) : String :=
  s ++ String.ofList (List.replicate (width - s.length) ' ')

/-- A decimal fraction: `±digits · 10 ^ exponent`, an infinity, or not a number. -/
inductive Fraction where
  | finite (neg : Bool) (digits : Nat) (exponent : Int)
  | infinite (neg : Bool)
  | notANum (neg : Bool)

/-- Leading digits with single underscores between them: value, count and what follows them. The
flag says whether a digit stands to the left. -/
def leadingDigits : List Char → Nat → Nat → Bool → Option (Nat × Nat × List Char)
  | [], v, n, afterDigit => if afterDigit || n == 0 then some (v, n, []) else none
  | c :: r, v, n, afterDigit =>
    if '0' ≤ c && c ≤ '9' then leadingDigits r (v * 10 + (c.toNat - '0'.toNat)) (n + 1) true
    else if c = '_' then if afterDigit then leadingDigits r v n false else none
    else if afterDigit || n == 0 then some (v, n, c :: r)
    else none

def exponent? : List Char → Option Int
  | [] => some 0
  | e :: r =>
    if e = 'e' || e = 'E' then
      let (neg, r) := signed r
      match leadingDigits r 0 0 false with
      | some (v, n, []) => if n = 0 then none else some (if neg then -(v : Int) else v)
      | _ => none
    else none

/-- A decimal fraction with an optional exponent, or the name of a special value. -/
def fraction? (s : String) : Option Fraction := do
  let (neg, r) := signed (strip s.toList)
  let name := String.ofList (r.map Char.toLower)
  if name = "inf" || name = "infinity" then return .infinite neg
  if name = "nan" then return .notANum neg
  let (whole, n, r) ← leadingDigits r 0 0 false
  match r with
  | '.' :: r =>
    let (v, m, r) ← leadingDigits r whole 0 false
    if n + m = 0 then none
    else
      return .finite neg v ((← exponent? r) - m)
  | r =>
    if n = 0 then none
    else
      return .finite neg whole (← exponent? r)

end Retarget.Text

namespace Retarget

export Text (integer? readInt hex decimal padLeft bracketed)

end Retarget

/-! ## Tokens -/

namespace Retarget.Text

def endsWord (c : Char) : Bool := "=[];\"#' \r\n\t".toList.contains c

/-- What follows an opening mark, through the closing one, and the rest. A string that is still open
at the end of the text extends to it; a backslash must have a character on its line to escape. -/
def quotedTail (mark : Char) : List Char → Option (List Char × List Char)
  | [] => some ([], [])
  | '\\' :: c :: r =>
    if c = '\n' then none else (quotedTail mark r).map fun (t, u) => ('\\' :: c :: t, u)
  | c :: r =>
    if c = mark then some ([c], r) else if c = '\\' then none
    else (quotedTail mark r).map fun (t, u) => (c :: t, u)

theorem quotedTail_length {mark : Char} {cs t u : List Char}
  (h : quotedTail mark cs = some (t, u)) : u.length ≤ cs.length := by
  fun_induction quotedTail mark cs generalizing t u with
  | case1 | case4 => simp_all
  | case2 | case5 => cases h
  | case3 | case6 =>
    obtain ⟨⟨t', u'⟩, h', e⟩ := Option.map_eq_some_iff.1 h
    grind

theorem length_dropWhile_le' (p : Char → Bool) (cs : List Char) :
  (cs.dropWhile p).length ≤ cs.length :=
  (List.dropWhile_suffix p).length_le

def scan (cs : List Char) : List String :=
  match cs with
  | [] => []
  | c :: r =>
    if c = '"' then
      match h : quotedTail c r with
      | some (t, u) =>
        have : u.length < (c :: r).length := Nat.lt_succ_of_le (quotedTail_length h)
        String.ofList (c :: t) :: scan u
      | none => scan r
    else if c = '#' then
      if (r.dropWhile (· != '\n')).length ≤ 1 then [String.ofList (c :: r.takeWhile (· != '\n'))]
      else scan r
    else if "=[],;".toList.contains c then c.toString :: scan r
    else if !endsWord c && c != ',' then
      have : (r.dropWhile (!endsWord ·)).length < (c :: r).length :=
        Nat.lt_succ_of_le (length_dropWhile_le' _ r)
      String.ofList (c :: r.takeWhile (!endsWord ·)) :: scan (r.dropWhile (!endsWord ·))
    else scan r
termination_by cs.length
decreasing_by all_goals simp only [List.length_cons] at *; omega

/-- Check brackets, quotes and forbidden operators, and drop `=`. -/
def checkTokens : List String → Bool → Texts
  | [], true => broken "unclosed list"
  | [], false => .ok []
  | t :: ts, inList =>
    if t = "=" then checkTokens ts inList
    else if t = "," || t = ";" then .error (.malformed "separator")
    else if t = "[" then if inList then broken "nested list" else (checkTokens ts true).map (t :: ·)
    else if t = "]" then
      if inList then (checkTokens ts false).map (t :: ·) else broken "stray bracket"
    else if t.startsWith "\"" && !t.endsWith "\"" then broken "unclosed string"
    else (checkTokens ts inList).map (t :: ·)

def lineTokens (line : String) : Texts := checkTokens (scan line.toList) false

/-- An argument of a statement: a word or a bracketed list of words. -/
inductive Item where
  | word (s : String)
  | list (xs : List String)

/-- Group the tokens between brackets; a comment ends the statement. The flag says whether a list
is open; the collected items are in reverse. -/
def groupTokens : List String → Bool → List Item → List Item
  | [], _, acc => acc.reverse
  | t :: ts, inList, acc =>
    if t.startsWith "#" then acc.reverse
    else if t = "]" then groupTokens ts false acc
    else if t = "[" then groupTokens ts true (.list [] :: acc)
    else
      match inList, acc with
      | true, .list xs :: r => groupTokens ts true (.list (xs ++ [t]) :: r)
      | _, _ => groupTokens ts inList (.word t :: acc)

def lines (text : String) : List String :=
  let parts := text.splitOn "\n"
  let last := parts.getLastD ""
  parts.dropLast.map (· ++ "\n") ++ (if last.isEmpty then [] else [last])

/-!
## Quoted bytes

A backslash introduces `n`, `x` with two hexadecimal digits, up to three octal digits, or a character
that stands for itself.
-/

abbrev Bytes := List UInt8
def isOctal (c : Char) : Bool := '0' ≤ c && c ≤ '7'
def byte (n : Nat) : Res UInt8 := if n < 256 then .ok n.toUInt8 else .error (.malformed "byte")
def octalByte (ds : List Char) : Res UInt8 := byte ((digits? 8 ds 0 false).getD 0)

def hexByte (a b : Char) : Res UInt8 :=
  match intIn? 16 (String.ofList [a, b]) with
  | some (.ofNat n) => byte n
  | _ => .error (.malformed "byte")

def unescape : List Char → Res Bytes
  | [] => .ok []
  | '\\' :: [] => .error .pastEnd
  | '\\' :: 'n' :: r => return 10 :: (← unescape r)
  | '\\' :: 'x' :: a :: b :: r => return (← hexByte a b) :: (← unescape r)
  | '\\' :: 'x' :: _ => broken "short escape"
  | '\\' :: c :: r =>
    if isOctal c then
      let ds := (r.take 2).takeWhile isOctal
      return (← octalByte (c :: ds)) :: (← unescape (r.drop ds.length))
    else return (← byte c.toNat) :: (← unescape r)
  | c :: r => return String.utf8EncodeChar c ++ (← unescape r)
termination_by cs => cs.length

def unquote (s : String) : Res Bytes := do
  if s.isEmpty then throw .pastEnd
  ensure (s.endsWith "\"") "unclosed string"
  ensure (s.startsWith "\"") "unopened string"
  unescape (s.toList.drop 1).dropLast

def pairs : List Char → Res Bytes
  | [] => .ok []
  | [_] => broken "half a byte"
  | a :: b :: r => return (← hexByte a b) :: (← pairs r)

def isGap (c : Char) : Bool := " \n\t".toList.contains c
def fromHex (s : String) : Res Bytes := pairs (s.toList.filter (!isGap ·))

def escapeByte (b : UInt8) : String :=
  if b = 10 then "\\n"
  else if b = 34 then "\\\""
  else if b = 92 then "\\\\"
  else if 32 ≤ b && b ≤ 126 then (Char.ofNat b.toNat).toString
  else "\\x" ++ hex 2 b.toNat

def escape (bs : Bytes) : String := String.join (bs.map escapeByte)
def quote (bs : Bytes) : String := "\"" ++ escape bs ++ "\""

def quotePieces (limit : Nat) (bs : Bytes) : List String :=
  if _ : limit = 0 ∨ bs.length = 0 then []
  else quote (bs.take limit) :: quotePieces limit (bs.drop limit)
termination_by bs.length
decreasing_by simp; omega

def quoteLines (limit : Nat) (bs : Bytes) : String := "\n".intercalate (quotePieces limit bs)
def quoteLimit : Nat := 1000000

end Retarget.Text
