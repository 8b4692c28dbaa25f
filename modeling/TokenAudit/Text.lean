/-! Characters and texts: blanks, letter case, search, and the bytes of a text. -/

namespace TokenAudit

/-- The characters with the Unicode property White_Space. -/
def isBlank (c : Char) : Bool :=
  let n := c.toNat
  (9 ≤ n && n ≤ 13) || n == 0x20 || n == 0x85 || n == 0xa0 || n == 0x1680 ||
    (0x2000 ≤ n && n ≤ 0x200a) || n == 0x2028 || n == 0x2029 || n == 0x202f ||
    n == 0x205f || n == 0x3000

namespace Text

def trimLeft (s : List Char) : List Char := s.dropWhile isBlank

def trimRight (s : List Char) : List Char := (s.reverse.dropWhile isBlank).reverse

def trim (s : List Char) : List Char := trimRight (trimLeft s)

def blank (s : List Char) : Bool := s.all isBlank

def after? : List Char → List Char → Option (List Char)
  | [], s => some s
  | _ :: _, [] => none
  | h :: t, c :: s => if h = c then after? t s else none

def before? (tail s : List Char) : Option (List Char) :=
  (after? tail.reverse s.reverse).map List.reverse

def occurs (needle : List Char) : List Char → Bool
  | [] => needle.isEmpty
  | c :: s => needle.isPrefixOf (c :: s) || occurs needle s

def fromFirst? (p : Char → Bool) : List Char → Option (List Char)
  | [] => none
  | c :: s => if p c then some (c :: s) else fromFirst? p s

def throughLast? (p : Char → Bool) (s : List Char) : Option (List Char) :=
  (fromFirst? p s.reverse).map List.reverse

def lowerAscii (s : List Char) : List Char := s.map Char.toLower

def upperAscii (s : List Char) : List Char := s.map Char.toUpper

def bytes (s : List Char) : List UInt8 := s.flatMap String.utf8EncodeChar

def dropEnd (c : Char) (s : List Char) : List Char := (s.reverse.dropWhile (· == c)).reverse

def splitOn (c : Char) : List Char → List (List Char)
  | [] => [[]]
  | d :: s =>
    match splitOn c s with
    | [] => [[d]]
    | p :: ps => if d = c then [] :: p :: ps else (d :: p) :: ps

theorem after?_append (h s : List Char) : after? h (h ++ s) = some s := by
  induction h with
  | nil => cases s <;> rfl
  | cons c h ih => simp [after?, ih]

theorem eq_append_of_after? {h s r : List Char} (e : after? h s = some r) : s = h ++ r := by
  fun_induction after? h s with
  | case1 => simpa using e
  | case2 => simp at e
  | case3 => simp_all
  | case4 => simp at e

theorem before?_append (s t : List Char) : before? t (s ++ t) = some s := by
  simp [before?, after?_append]

end Text

def trimmed (s : String) : String := String.ofList (Text.trim s.toList)

def isBlankText (s : String) : Bool := Text.blank s.toList

end TokenAudit
