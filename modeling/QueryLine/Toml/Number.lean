import QueryLine.Toml.Reader

/-!
Numbers and dates of the TOML format, as far as telling what is one: each function gives the rest of
the text behind it.
-/

namespace QueryLine.Toml

/-- Digits to come after a digit; single underscores may stand between digits. -/
def moreDigits? (isDigit : Char → Bool) : Text → Option Text
  | [] => some []
  | c :: t =>
    if isDigit c then moreDigits? isDigit t
    else if c = '_' then
      match t with
      | d :: t => if isDigit d then moreDigits? isDigit t else none
      | [] => none
    else some (c :: t)

def digits? (isDigit : Char → Bool) : Text → Option Text
  | c :: t => if isDigit c then moreDigits? isDigit t else none
  | [] => none

def skipSign : Text → Text
  | '+' :: t | '-' :: t => t
  | t => t

/-- A whole number without leading zeros. -/
def decimal? (t : Text) : Option Text :=
  match skipSign t with
  | '0' :: rest => some rest
  | rest => digits? Char.isDigit rest

def taken (t rest : Text) : Text := t.take (t.length - rest.length)

def valueOf (base : Nat) (t : Text) : Nat :=
  (t.filterMap hexValue?).foldl (fun n d => base * n + d) 0

def maxInteger : Nat := 9223372036854775807

def integer? (t : Text) : Option Text :=
  let unsigned (base : Nat) (isDigit : Char → Bool) (t : Text) : Option Text :=
    (digits? isDigit t).bind fun rest =>
      if valueOf base (taken t rest) ≤ maxInteger then some rest else none
  match t with
  | '0' :: 'x' :: t => unsigned 16 (fun c => (hexValue? c).isSome) t
  | '0' :: 'o' :: t => unsigned 8 (fun c => '0' ≤ c && c ≤ '7') t
  | '0' :: 'b' :: t => unsigned 2 (fun c => c = '0' || c = '1') t
  | t =>
    (decimal? t).bind fun rest =>
      let n := valueOf 10 (taken t rest)
      if n ≤ maxInteger ∨ (t.head? = some '-' ∧ n = maxInteger + 1) then some rest else none

/-- The part of a number behind `e`, and its value. -/
def exponent? : Text → Option (Int × Text)
  | 'e' :: t | 'E' :: t =>
    (digits? Char.isDigit (skipSign t)).map fun rest =>
      let n : Int := valueOf 10 (taken (skipSign t) rest)
      (if t.head? = some '-' then -n else n, rest)
  | _ => none

/-- `m · 10 ^ e` rounds to infinity in double precision. -/
def exceedsDouble (m : Nat) (e : Int) : Bool :=
  let magnitude := (Nat.toDigits 10 m).length + e
  if m = 0 ∨ magnitude < 300 then false
  else if 400 < magnitude then true
  else
    let bound := Nat.pow 2 1024 - Nat.pow 2 970
    if 0 ≤ e then bound ≤ m * Nat.pow 10 e.toNat else bound * Nat.pow 10 (-e).toNat ≤ m

/-- A number with a fraction or an exponent. Only a negative one may be too large. -/
def fractional? (t : Text) : Option Text := do
  let whole ← decimal? t
  let (fraction, scale, rest) ← match whole with
    | '.' :: u =>
      (digits? Char.isDigit u).bind fun rest =>
        match rest with
        | 'e' :: _ | 'E' :: _ => (exponent? rest).map fun (e, last) => (taken u rest, e, last)
        | _ => some (taken u rest, 0, rest)
    | _ => (exponent? whole).map fun (e, rest) => ([], e, rest)
  let fractionDigits := fraction.filter Char.isDigit
  let mantissa := valueOf 10 ((taken t whole).filter Char.isDigit ++ fractionDigits)
  if t.head? ≠ some '-' && exceedsDouble mantissa (scale - fractionDigits.length) then none
  else some rest

def special? (t : Text) : Option Text :=
  match skipSign t with
  | 'i' :: 'n' :: 'f' :: rest | 'n' :: 'a' :: 'n' :: rest => some rest
  | _ => none

/-- A number of exactly `length` digits from `low` to `high`. -/
def fixed? (length low high : Nat) (t : Text) : Option (Nat × Text) :=
  let digits := t.take length
  let n := valueOf 10 digits
  if digits.length = length && digits.all Char.isDigit && low ≤ n && n ≤ high then
    some (n, t.drop length)
  else none

def date? (t : Text) : Option Text := do
  let (year, t) ← fixed? 4 0 9999 t
  let (month, t) ← after '-' (fixed? 2 1 12) t
  let (day, t) ← after '-' (fixed? 2 1 31) t
  let leap := year % 4 = 0 && (year % 100 ≠ 0 || year % 400 = 0)
  let last := match month with
    | 2 => if leap then 29 else 28
    | 4 | 6 | 9 | 11 => 30
    | _ => 31
  if day ≤ last then some t else none

def time? (t : Text) : Option Text := do
  let (_, t) ← fixed? 2 0 23 t
  let (_, t) ← after ':' (fixed? 2 0 59) t
  let (_, t) ← after ':' (fixed? 2 0 60) t
  match t with
  | '.' :: c :: rest => if c.isDigit then some (rest.dropWhile Char.isDigit) else some t
  | _ => some t

def skipZone (t : Text) : Text :=
  let offset : Reader Nat := fun t => do
    let (_, t) ← fixed? 2 0 23 t
    after ':' (fixed? 2 0 59) t
  match t with
  | 'Z' :: rest | 'z' :: rest => rest
  | '+' :: rest | '-' :: rest => ((offset rest).map (·.2)).getD t
  | _ => t

/-- A date, a time of day, or both, with or without a time zone. -/
def moment? (t : Text) : Option Text :=
  match date? t with
  | some rest =>
    match rest with
    | c :: u =>
      if c = 'T' || c = 't' || c = ' ' then ((time? u).map skipZone).getD rest else some rest
    | [] => some []
  | none => time? t

def scalar? (t : Text) : Option Text :=
  (moment? t).or ((fractional? t).or ((special? t).or (integer? t)))

end QueryLine.Toml
