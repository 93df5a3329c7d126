-- JSON as Python reads it, strings and integers as it writes them, with every
-- character outside ASCII escaped, and the laws that tie the two.
import FlynnAgents.Lib.Unicode
import FlynnAgents.Lib.Sha256

namespace JsonText

open Text (ofChar ofString high low combine joined)

/-! ## Documents -/

/-- A number with a fraction or an exponent: `digits` times ten to `exponent`. -/
structure Decimal where
  negative : Bool
  digits : Nat
  exponent : Int
  deriving DecidableEq, Repr

/-- The three names that Python reads as numbers. -/
inductive Constant where
  | nan
  | infinity
  | minusInfinity
  deriving DecidableEq, Repr

/-- What a JSON text says, before any hook is called. -/
inductive Tree where
  | null
  | bool (b : Bool)
  | int (n : Int)
  | float (number : Decimal)
  | constant (name : Constant)
  | str (s : Text)
  | arr (items : List Tree)
  | obj (fields : List (Text × Tree))

/-! ## The scanner -/

/-- The digits of an integer that are converted at most. -/
def maxDigits : Nat := 4300

def hexVal (c : CodePoint) : Option Nat :=
  if 48 ≤ c.val ∧ c.val ≤ 57 then some (c.val - 48)
  else if 97 ≤ c.val ∧ c.val ≤ 102 then some (c.val - 87)
  else if 65 ≤ c.val ∧ c.val ≤ 70 then some (c.val - 55)
  else none

/-- The number of four hexadecimal digits. -/
def hex4Val (a b c d : CodePoint) : Option Nat := do
  let a ← hexVal a
  let b ← hexVal b
  let c ← hexVal c
  let d ← hexVal d
  return a * 4096 + b * 256 + c * 16 + d

/-- The character that a short escape stands for. -/
def shortEscape (c : CodePoint) : Option CodePoint :=
  if c.val = 34 ∨ c.val = 92 ∨ c.val = 47 then some c
  else if c.val = 98 then some 8
  else if c.val = 102 then some 12
  else if c.val = 110 then some 10
  else if c.val = 114 then some 13
  else if c.val = 116 then some 9
  else none

/-- A piece of a string: a character, or a unit that was escaped by number. -/
inductive Piece where
  | char (c : CodePoint)
  | unit (n : Nat)
  deriving DecidableEq, Repr

/-- The pieces of a string after its opening quote. -/
def scanPieces : Text → Option (List Piece × Text)
  | [] => none
  | c :: rest =>
    if c.val = 34 then some ([], rest)
    else if c.val = 92 then
      match rest with
      | [] => none
      | e :: rest =>
        if e.val = 117 then
          match rest with
          | a :: b :: c :: d :: rest => do
            let n ← hex4Val a b c d
            let (pieces, rest) ← scanPieces rest
            return (.unit n :: pieces, rest)
          | _ => none
        else do
          let c ← shortEscape e
          let (pieces, rest) ← scanPieces rest
          return (.char c :: pieces, rest)
    else if c.val < 32 then none
    else do
      let (pieces, rest) ← scanPieces rest
      return (.char c :: pieces, rest)

/-- The string of the pieces: an escaped high unit joins the escaped low one after it. -/
def assemble : List Piece → Text
  | [] => []
  | .char c :: rest => c :: assemble rest
  | [.unit n] => [Fin.ofNat 0x110000 n]
  | .unit n :: .char c :: rest => Fin.ofNat 0x110000 n :: c :: assemble rest
  | .unit n :: .unit m :: rest =>
    if high n && low m then combine n m :: assemble rest
    else Fin.ofNat 0x110000 n :: assemble (.unit m :: rest)

def scanString (t : Text) : Option (Text × Text) :=
  (scanPieces t).map fun (pieces, rest) => (assemble pieces, rest)

def isDigit (c : CodePoint) : Bool := decide (48 ≤ c.val ∧ c.val ≤ 57)

def digitsVal (digits : Text) : Nat := digits.foldl (fun n c => 10 * n + (c.val - 48)) 0

/-- The digits after a leading zero are not part of a number. -/
def integerPart (digits : Text) : Text :=
  match digits with
  | [] => []
  | c :: _ => if c.val = 48 then [c] else digits

/-- A fraction, if there is one. -/
def scanFraction (t : Text) : Option Text × Text :=
  match t with
  | [] => (none, t)
  | c :: rest =>
    if c.val = 46 ∧ rest.takeWhile isDigit ≠ [] then
      (some (rest.takeWhile isDigit), rest.dropWhile isDigit)
    else (none, t)

/-- An exponent, if there is one. -/
def scanExponent (t : Text) : Option Int × Text :=
  match t with
  | [] => (none, t)
  | e :: rest =>
    if e.val = 101 ∨ e.val = 69 then
      let negative : Bool := rest.head?.any (fun c => c.val = 45)
      let digits := if rest.head?.any (fun c => c.val = 45 ∨ c.val = 43) then rest.tail else rest
      if digits.takeWhile isDigit ≠ [] then
        let n : Int := digitsVal (digits.takeWhile isDigit)
        (some (if negative then -n else n), digits.dropWhile isDigit)
      else (none, t)
    else (none, t)

/-- A number after its sign. -/
def scanUnsigned (negative : Bool) (t : Text) : Option (Tree × Text) :=
  let whole := integerPart (t.takeWhile isDigit)
  if whole = [] then none
  else
    let (fraction, rest) := scanFraction (t.drop whole.length)
    let (exponent, rest) := scanExponent rest
    if fraction = none ∧ exponent = none then
      -- `int` refuses what has too many digits
      if maxDigits < whole.length then none
      else
        let n : Int := digitsVal whole
        some (.int (if negative then -n else n), rest)
    else
      let part := fraction.getD []
      some (.float ⟨negative, digitsVal (whole ++ part), exponent.getD 0 - part.length⟩, rest)

/-- The rest of the text after a word. -/
def after (word : String) (t : Text) : Option Text :=
  if ofString word <+: t then some (t.drop word.length) else none

/-- A value that begins with a minus, a digit or a letter. -/
def scanScalar (t : Text) : Option (Tree × Text) :=
  match after "null" t with
  | some rest => some (.null, rest)
  | none => match after "true" t with
    | some rest => some (.bool true, rest)
    | none => match after "false" t with
      | some rest => some (.bool false, rest)
      | none => match after "NaN" t with
        | some rest => some (.constant .nan, rest)
        | none => match after "Infinity" t with
          | some rest => some (.constant .infinity, rest)
          | none => match after "-Infinity" t with
            | some rest => some (.constant .minusInfinity, rest)
            | none => match after "-" t with
              | some rest => scanUnsigned true rest
              | none => scanUnsigned false t

def isSpace (c : CodePoint) : Bool :=
  decide (c.val = 32 ∨ c.val = 9 ∨ c.val = 10 ∨ c.val = 13)

def skipSpaces (t : Text) : Text := t.dropWhile isSpace

/-- The rest after spaces and this character. -/
def expect (n : Nat) (t : Text) : Option Text :=
  match skipSpaces t with
  | [] => none
  | c :: rest => if c.val = n then some rest else none

mutual

/-- A value, which begins right here. -/
def scanValue : Nat → Text → Option (Tree × Text)
  | 0, _ => none
  | fuel + 1, t =>
    match t with
    | [] => none
    | c :: rest =>
      if c.val = 34 then (scanString rest).map fun (s, rest) => (.str s, rest)
      else if c.val = 91 then
        match expect 93 rest with
        | some rest => some (.arr [], rest)
        | none => (scanItems fuel (skipSpaces rest)).map fun (items, rest) => (.arr items, rest)
      else if c.val = 123 then
        match expect 125 rest with
        | some rest => some (.obj [], rest)
        | none =>
          (scanFields fuel (skipSpaces rest)).map fun (fields, rest) => (.obj fields, rest)
      else scanScalar t

/-- The items of an array up to its closing bracket. -/
def scanItems : Nat → Text → Option (List Tree × Text)
  | 0, _ => none
  | fuel + 1, t => do
    let (item, rest) ← scanValue fuel t
    match expect 93 rest with
    | some rest => return ([item], rest)
    | none =>
      let rest ← expect 44 rest
      let (items, rest) ← scanItems fuel (skipSpaces rest)
      return (item :: items, rest)

/-- The fields of an object up to its closing brace. -/
def scanFields : Nat → Text → Option (List (Text × Tree) × Text)
  | 0, _ => none
  | fuel + 1, t => do
    let rest ← match t with
      | [] => none
      | c :: rest => if c.val = 34 then some rest else none
    let (key, rest) ← scanString rest
    let rest ← expect 58 rest
    let (value, rest) ← scanValue fuel (skipSpaces rest)
    match expect 125 rest with
    | some rest => return ([(key, value)], rest)
    | none =>
      let rest ← expect 44 rest
      let (fields, rest) ← scanFields fuel (skipSpaces rest)
      return ((key, value) :: fields, rest)

end

/-- The document of a text, with nothing but spaces around it. -/
def scan (t : Text) : Option Tree :=
  match scanValue (t.length + 1) (skipSpaces t) with
  | some (tree, rest) => if skipSpaces rest = [] then some tree else none
  | none => none

/-! ## Strings and integers as they are written -/

/-- A UTF-16 unit as an escape. -/
def escapeUnit (n : Nat) : Text :=
  ofString "\\u" ++ [ofChar (Sha256.digit (n / 4096 % 16)), ofChar (Sha256.digit (n / 256 % 16)),
    ofChar (Sha256.digit (n / 16 % 16)), ofChar (Sha256.digit (n % 16))]

/-- One character of a string. -/
def escape (c : CodePoint) : Text :=
  if c.val = 34 then ofString "\\\""
  else if c.val = 92 then ofString "\\\\"
  else if c.val = 10 then ofString "\\n"
  else if c.val = 13 then ofString "\\r"
  else if c.val = 9 then ofString "\\t"
  else if c.val = 12 then ofString "\\f"
  else if c.val = 8 then ofString "\\b"
  else if 32 ≤ c.val ∧ c.val ≤ 126 then [c]
  else if c.val < 0x10000 then escapeUnit c.val
  else escapeUnit (0xd800 + (c.val - 0x10000) / 0x400) ++
    escapeUnit (0xdc00 + (c.val - 0x10000) % 0x400)

def quoted (s : Text) : Text := 34 :: s.flatMap escape ++ [34]

def intText (n : Int) : Text := ofString (toString n)

/-- The integer has not too many digits. -/
def shortInt (n : Int) : Bool := decide ((toString n.natAbs).length ≤ maxDigits)

/-! ## Strings come back joined -/

/-- The pieces that a printed character is scanned as. -/
def pieces (c : CodePoint) : List Piece :=
  if c.val = 34 ∨ c.val = 92 ∨ c.val = 10 ∨ c.val = 13 ∨ c.val = 9 ∨ c.val = 12 ∨ c.val = 8 ∨
      (32 ≤ c.val ∧ c.val ≤ 126) then [.char c]
  else if c.val < 0x10000 then [.unit c.val]
  else [.unit (0xd800 + (c.val - 0x10000) / 0x400), .unit (0xdc00 + (c.val - 0x10000) % 0x400)]

theorem hexVal_digit : ∀ k < 16, hexVal (ofChar (Sha256.digit k)) = some k := by decide

/-- Pieces in front of what is scanned. -/
def putPieces (ps : List Piece) (r : Option (List Piece × Text)) : Option (List Piece × Text) :=
  r.map fun (ps', rest) => (ps ++ ps', rest)

theorem scanPieces_unit {n : Nat} (hn : n < 0x10000) (t : Text) :
    scanPieces (escapeUnit n ++ t) = putPieces [.unit n] (scanPieces t) := by
  have hhex : hex4Val (ofChar (Sha256.digit (n / 4096 % 16))) (ofChar (Sha256.digit (n / 256 % 16)))
      (ofChar (Sha256.digit (n / 16 % 16))) (ofChar (Sha256.digit (n % 16))) = some n := by
    unfold hex4Val
    rw [hexVal_digit _ (by omega), hexVal_digit _ (by omega), hexVal_digit _ (by omega),
      hexVal_digit _ (by omega)]
    simp only [Option.bind_eq_bind, Option.bind_some, Option.pure_def, Option.some.injEq]
    omega
  change scanPieces (92 :: 117 :: _ :: _ :: _ :: _ :: t) = _
  rw [scanPieces.eq_def]
  simp only
  rw [if_neg (by decide), if_pos (by decide), if_pos (by decide), hhex]
  cases scanPieces t <;> rfl

theorem scanPieces_short {e : CodePoint} {c : CodePoint} (he : e.val ≠ 117)
    (hc : shortEscape e = some c) (t : Text) :
    scanPieces (92 :: e :: t) = putPieces [.char c] (scanPieces t) := by
  rw [scanPieces.eq_def]
  simp only
  rw [if_neg (by decide), if_pos (by decide), if_neg he, hc]
  cases scanPieces t <;> rfl

theorem scanPieces_plain {c : CodePoint} (hquote : c.val ≠ 34) (hback : c.val ≠ 92)
    (hcontrol : 32 ≤ c.val) (t : Text) :
    scanPieces (c :: t) = putPieces [.char c] (scanPieces t) := by
  rw [scanPieces.eq_def]
  simp only
  rw [if_neg hquote, if_neg hback, if_neg (by omega)]
  cases scanPieces t <;> rfl

theorem scanPieces_quote (t : Text) : scanPieces (34 :: t) = some ([], t) := by
  rw [scanPieces.eq_def]
  simp only
  rw [if_pos (by decide)]

theorem eq_of_val {c : CodePoint} {n : Nat} (h : c.val = n) : c = Fin.ofNat 0x110000 n := by
  apply Fin.ext
  have := c.isLt
  rw [Fin.val_ofNat, Nat.mod_eq_of_lt (by omega), h]

theorem scanPieces_escape (c : CodePoint) (t : Text) :
    scanPieces (escape c ++ t) = putPieces (pieces c) (scanPieces t) := by
  unfold escape pieces
  by_cases h34 : c.val = 34
  · rw [if_pos h34, if_pos (.inl h34), eq_of_val h34]
    exact scanPieces_short (by decide) (by decide) t
  rw [if_neg h34]
  by_cases h92 : c.val = 92
  · rw [if_pos h92, if_pos (by simp [h92]), eq_of_val h92]
    exact scanPieces_short (by decide) (by decide) t
  rw [if_neg h92]
  by_cases h10 : c.val = 10
  · rw [if_pos h10, if_pos (by simp [h10]), eq_of_val h10]
    exact scanPieces_short (by decide) (by decide) t
  rw [if_neg h10]
  by_cases h13 : c.val = 13
  · rw [if_pos h13, if_pos (by simp [h13]), eq_of_val h13]
    exact scanPieces_short (by decide) (by decide) t
  rw [if_neg h13]
  by_cases h9 : c.val = 9
  · rw [if_pos h9, if_pos (by simp [h9]), eq_of_val h9]
    exact scanPieces_short (by decide) (by decide) t
  rw [if_neg h9]
  by_cases h12 : c.val = 12
  · rw [if_pos h12, if_pos (by simp [h12]), eq_of_val h12]
    exact scanPieces_short (by decide) (by decide) t
  rw [if_neg h12]
  by_cases h8 : c.val = 8
  · rw [if_pos h8, if_pos (by simp [h8]), eq_of_val h8]
    exact scanPieces_short (by decide) (by decide) t
  rw [if_neg h8]
  by_cases hplain : 32 ≤ c.val ∧ c.val ≤ 126
  · rw [if_pos hplain, if_pos (by simp [hplain])]
    exact scanPieces_plain h34 h92 hplain.1 t
  rw [if_neg hplain, if_neg (show ¬ (c.val = 34 ∨ c.val = 92 ∨ c.val = 10 ∨ c.val = 13 ∨ c.val = 9 ∨
    c.val = 12 ∨ c.val = 8 ∨ (32 ≤ c.val ∧ c.val ≤ 126)) by omega)]
  by_cases hunit : c.val < 0x10000
  · rw [if_pos hunit, if_pos hunit]
    exact scanPieces_unit hunit t
  · rw [if_neg hunit, if_neg hunit, List.append_assoc]
    have hc := c.isLt
    rw [scanPieces_unit (by omega), scanPieces_unit (by omega)]
    cases scanPieces t <;> rfl

theorem scanPieces_quoted (s : Text) (t : Text) :
    scanPieces (s.flatMap escape ++ 34 :: t) = some (s.flatMap pieces, t) := by
  induction s with
  | nil => exact scanPieces_quote t
  | cons c s ih =>
    rw [List.flatMap_cons, List.append_assoc, scanPieces_escape, ih]
    rfl

theorem assemble_unit {n : Nat} (h : high n = false) (rest : List Piece) :
    assemble (.unit n :: rest) = Fin.ofNat 0x110000 n :: assemble rest := by
  cases rest with
  | nil => rfl
  | cons p rest =>
    cases p with
    | char c => rfl
    | unit m => rw [assemble, h, Bool.false_and, if_neg (by decide)]

/-- A unit stays alone if no low one was escaped right after it. -/
theorem assemble_alone {n : Nat} {rest : List Piece} (h : ∀ m, rest.head? = some (.unit m) →
    low m = false) : assemble (.unit n :: rest) = Fin.ofNat 0x110000 n :: assemble rest := by
  cases rest with
  | nil => rfl
  | cons p rest =>
    cases p with
    | char c => rfl
    | unit m => rw [assemble, h m rfl, Bool.and_false, if_neg (by decide)]

theorem ofNat_val (c : CodePoint) : Fin.ofNat 0x110000 c.val = c := (eq_of_val rfl).symm

theorem high_unit {c : CodePoint} (h : high c = true) : pieces c = [.unit c.val] := by
  unfold high at h
  have h := of_decide_eq_true h
  unfold pieces
  rw [if_neg (by omega), if_pos (by omega)]

/-- A character that is no high surrogate is read back by itself. -/
theorem assemble_pieces {c : CodePoint} (h : high c = false) (rest : List Piece) :
    assemble (pieces c ++ rest) = c :: assemble rest := by
  unfold pieces
  split
  · rfl
  · split
    · rw [List.singleton_append, assemble_unit h, ofNat_val]
    · have hc := c.isLt
      have hhigh : high (0xd800 + (c.val - 0x10000) / 0x400) = true := by
        unfold high
        apply decide_eq_true
        omega
      have hlow : low (0xdc00 + (c.val - 0x10000) % 0x400) = true := by
        unfold low
        apply decide_eq_true
        omega
      have hcombine : combine (0xd800 + (c.val - 0x10000) / 0x400)
          (0xdc00 + (c.val - 0x10000) % 0x400) = c := by
        apply Fin.ext
        rw [Text.combine_val hhigh hlow]
        omega
      rw [List.cons_append, List.singleton_append, assemble,
        if_pos (by rw [hhigh, hlow]; rfl), hcombine]

/-- The first piece of a character is a low unit only for a low surrogate. -/
theorem pieces_head {c : CodePoint} {rest : List Piece} {m : Nat}
    (h : (pieces c ++ rest).head? = some (.unit m)) : low m = low c ∨ low m = false := by
  unfold pieces at h
  split at h
  · cases h
  · split at h
    · cases h
      exact .inl rfl
    · have hc := c.isLt
      cases h
      right
      unfold low
      apply decide_eq_false
      omega

theorem assemble_joined (s : Text) : assemble (s.flatMap pieces) = joined s := by
  fun_induction joined s with
  | case1 => rfl
  | case2 c =>
    by_cases hc : high c = true
    · have hone : List.flatMap pieces [c] = [.unit c.val] := by
        rw [List.flatMap_singleton, high_unit hc]
      have halone : assemble [.unit c.val] = Fin.ofNat 0x110000 c.val :: assemble [] :=
        assemble_alone fun m hm => by cases hm
      rw [hone, halone, ofNat_val]
      exact congrArg _ (by unfold assemble; rfl)
    · rw [List.flatMap_cons, assemble_pieces (by simpa using hc)]
      rfl
  | case3 c d rest h ih =>
    obtain ⟨hc, hd⟩ := Bool.and_eq_true_iff.mp h
    have hd' : pieces d = [.unit d.val] := by
      unfold low at hd
      have hd := of_decide_eq_true hd
      unfold pieces
      rw [if_neg (by omega), if_pos (by omega)]
    rw [List.flatMap_cons, List.flatMap_cons, high_unit hc, hd', List.singleton_append,
      List.singleton_append, assemble, if_pos h, ih]
  | case4 c d rest h ih =>
    rw [List.flatMap_cons]
    by_cases hc : high c = true
    · have hd : low d = false := by
        by_contra hn
        exact h (by rw [hc, Bool.true_and]; simpa using hn)
      rw [high_unit hc, List.singleton_append, assemble_alone, ih, ofNat_val]
      intro m hm
      rw [List.flatMap_cons] at hm
      rcases pieces_head hm with heq | hno
      · rw [heq, hd]
      · exact hno
    · rw [assemble_pieces (by simpa using hc), ih]

/-- A printed string is read back with its surrogate pairs joined. -/
theorem scanString_quoted (s t : Text) :
    scanString (s.flatMap escape ++ 34 :: t) = some (joined s, t) := by
  unfold scanString
  rw [scanPieces_quoted]
  exact congrArg (fun u => some (u, t)) (assemble_joined s)

/-! ## Documents come back joined -/

mutual

/-- The document with the surrogate pairs of its strings joined. -/
def joinTree : Tree → Tree
  | .null => .null
  | .bool b => .bool b
  | .int n => .int n
  | .float number => .float number
  | .constant name => .constant name
  | .str s => .str (joined s)
  | .arr items => .arr (joinItems items)
  | .obj fields => .obj (joinFields fields)

def joinItems : List Tree → List Tree
  | [] => []
  | item :: items => joinTree item :: joinItems items

def joinFields : List (Text × Tree) → List (Text × Tree)
  | [] => []
  | (key, value) :: fields => (joined key, joinTree value) :: joinFields fields

end

/-- What may stand after a number that is complete. -/
def Delimited (t : Text) : Prop :=
  ∀ c rest, t = c :: rest → isDigit c = false ∧ c.val ≠ 46 ∧ c.val ≠ 101 ∧ c.val ≠ 69

theorem delimited_cons {c : CodePoint} (h : c.val = 44 ∨ c.val = 93 ∨ c.val = 125) (t : Text) :
    Delimited (c :: t) := by
  intro d rest hd
  cases hd
  unfold isDigit
  rw [decide_eq_false_iff_not]
  omega

/-- A text does not begin with a word whose first character is another. -/
theorem after_none {word : String} {w : CodePoint} {ws t : Text} {c : CodePoint}
    (hword : ofString word = w :: ws) (h : c ≠ w) : after word (c :: t) = none := by
  unfold after
  rw [hword]
  apply if_neg
  intro hp
  exact h (List.cons_prefix_cons.mp hp).1.symm

theorem after_self (word : String) (t : Text) : after word (ofString word ++ t) = some t := by
  unfold after
  rw [if_pos (List.prefix_append _ _)]
  have hlength : word.length = (ofString word).length := by
    rw [ofString, List.length_map, String.length_toList]
  rw [hlength, List.drop_left]

theorem digits_print (n : Nat) :
    digitsVal ((Nat.toDigits 10 n).map ofChar) = n := by
  have h := @Nat.ofDigitChars_ten_toDigits n
  rw [Nat.ofDigitChars_eq_foldl] at h
  unfold digitsVal
  rw [List.foldl_map]
  simp only [Text.ofChar_val]
  exact h

theorem digits_isDigit (n : Nat) : ∀ c ∈ (Nat.toDigits 10 n).map ofChar, isDigit c = true := by
  intro c hc
  obtain ⟨d, hd, rfl⟩ := List.mem_map.mp hc
  have hdigit := Nat.isDigit_of_mem_toDigits (by decide) (by decide) hd
  unfold isDigit
  rw [Text.ofChar_val]
  apply decide_eq_true
  unfold Char.isDigit at hdigit
  have h := Bool.and_eq_true_iff.mp hdigit
  exact ⟨of_decide_eq_true h.1, of_decide_eq_true h.2⟩

/-- The first digit of a number that is not zero is not zero. -/
theorem digits_lead (n : Nat) (h : 0 < n) :
    ∃ c rest, Nat.toDigits 10 n = c :: rest ∧ c ≠ '0' := by
  induction n using Nat.strong_induction_on with
  | _ n ih =>
    by_cases hsmall : n < 10
    · rw [Nat.toDigits_of_lt_base hsmall]
      refine ⟨n.digitChar, [], rfl, ?_⟩
      have hall : ∀ k < 10, 0 < k → k.digitChar ≠ '0' := by decide
      exact hall n hsmall h
    · obtain ⟨c, rest, heq, hc⟩ := ih (n / 10) (by omega) (by omega)
      rw [Nat.toDigits_of_base_le (by decide) (by omega), heq]
      exact ⟨c, _, rfl, hc⟩

theorem integerPart_digits (n : Nat) :
    integerPart ((Nat.toDigits 10 n).map ofChar) = (Nat.toDigits 10 n).map ofChar := by
  by_cases hn : n = 0
  · subst hn
    rfl
  · obtain ⟨c, rest, heq, hc⟩ := digits_lead n (by omega)
    rw [heq, List.map_cons]
    unfold integerPart
    simp only
    rw [Text.ofChar_val, if_neg]
    intro h
    exact hc (Char.ext (UInt32.toNat_inj.mp h))

theorem scanFraction_delimited {t : Text} (h : Delimited t) : scanFraction t = (none, t) := by
  unfold scanFraction
  cases t with
  | nil => rfl
  | cons c rest =>
    obtain ⟨-, hdot, -, -⟩ := h c rest rfl
    simp only
    rw [if_neg (fun hc => hdot hc.1)]

theorem scanExponent_delimited {t : Text} (h : Delimited t) : scanExponent t = (none, t) := by
  unfold scanExponent
  cases t with
  | nil => rfl
  | cons c rest =>
    obtain ⟨-, -, he, hE⟩ := h c rest rfl
    simp only
    rw [if_neg (by omega)]

theorem takeWhile_digits {ds t : Text} (hds : ∀ c ∈ ds, isDigit c = true) (h : Delimited t) :
    (ds ++ t).takeWhile isDigit = ds := by
  rw [List.takeWhile_append_of_pos hds]
  cases t with
  | nil => simp
  | cons c rest =>
    rw [List.takeWhile_cons_of_neg (by rw [(h c rest rfl).1]; decide), List.append_nil]

/-- A printed natural number is read back. -/
theorem scanUnsigned_digits (negative : Bool) {n : Nat} {t : Text}
    (hn : (Nat.toDigits 10 n).length ≤ maxDigits) (h : Delimited t) :
    scanUnsigned negative ((Nat.toDigits 10 n).map ofChar ++ t) =
      some (.int (if negative then -(n : Int) else n), t) := by
  have hne : (Nat.toDigits 10 n).map ofChar ≠ [] := by simp [Nat.toDigits_ne_nil]
  unfold scanUnsigned
  simp only
  rw [takeWhile_digits (digits_isDigit n) h, integerPart_digits, if_neg hne, List.drop_left,
    scanFraction_delimited h, scanExponent_delimited h]
  simp only [and_self, if_true]
  rw [if_neg (by rw [List.length_map]; omega), digits_print]

theorem intText_nonneg {n : Int} (h : 0 ≤ n) :
    intText n = (Nat.toDigits 10 n.natAbs).map ofChar := by
  rw [intText, Int.toString_eq_repr, Int.repr_eq_if, if_pos h, ofString, Nat.toList_repr]
  rw [show n.toNat = n.natAbs by omega]

theorem intText_neg {n : Int} (h : n < 0) :
    intText n = 45 :: (Nat.toDigits 10 n.natAbs).map ofChar := by
  rw [intText, Int.toString_eq_repr, Int.repr_eq_if, if_neg (by omega), ofString,
    String.toList_append, List.map_append, Nat.toList_repr]
  rw [show (-n).toNat = n.natAbs by omega]
  rfl

theorem shortInt_iff {n : Int} :
    shortInt n = true ↔ (Nat.toDigits 10 n.natAbs).length ≤ maxDigits := by
  rw [shortInt, decide_eq_true_iff, Nat.toString_eq_repr, Nat.repr_eq_ofList_toDigits,
    String.length_ofList]

/-- An integer begins with a digit or a minus. -/
theorem intText_head (n : Int) : ∃ c rest, intText n = c :: rest ∧ (isDigit c = true ∨ c = 45) := by
  by_cases h : 0 ≤ n
  · obtain ⟨d, ds, hds⟩ := List.exists_cons_of_ne_nil
      (show Nat.toDigits 10 n.natAbs ≠ [] from Nat.toDigits_ne_nil)
    have hdigit := digits_isDigit n.natAbs (ofChar d) (by rw [hds]; exact List.mem_cons_self)
    rw [intText_nonneg h, hds]
    exact ⟨ofChar d, _, rfl, .inl hdigit⟩
  · rw [intText_neg (by omega)]
    exact ⟨45, _, rfl, .inr rfl⟩

theorem skipSpaces_cons {c : CodePoint} (h : isSpace c = false) (t : Text) :
    skipSpaces (c :: t) = c :: t := by
  unfold skipSpaces
  rw [List.dropWhile_cons_of_neg (by rw [h]; decide)]

theorem expect_self {c : CodePoint} (h : isSpace c = false) (t : Text) :
    expect c.val (c :: t) = some t := by
  unfold expect
  rw [skipSpaces_cons h]
  exact if_pos rfl

theorem expect_other {c : CodePoint} {n : Nat} (h : isSpace c = false) (hn : c.val ≠ n) (t : Text) :
    expect n (c :: t) = none := by
  unfold expect
  rw [skipSpaces_cons h]
  exact if_neg hn

theorem scanScalar_unsigned {c : CodePoint} (h : isDigit c = true) (t : Text) :
    scanScalar (c :: t) = scanUnsigned false (c :: t) := by
  unfold isDigit at h
  have h := of_decide_eq_true h
  have hother : ∀ w : CodePoint, ¬ (48 ≤ w.val ∧ w.val ≤ 57) → c ≠ w := by
    rintro w hw rfl
    exact hw h
  unfold scanScalar
  rw [after_none (w := 110) rfl (hother _ (by decide)),
    after_none (w := 116) rfl (hother _ (by decide)),
    after_none (w := 102) rfl (hother _ (by decide)),
    after_none (w := 78) rfl (hother _ (by decide)),
    after_none (w := 73) rfl (hother _ (by decide)),
    after_none (w := 45) rfl (hother _ (by decide)),
    after_none (w := 45) rfl (hother _ (by decide))]

theorem scanScalar_minus {c : CodePoint} (h : isDigit c = true) (t : Text) :
    scanScalar (45 :: c :: t) = scanUnsigned true (c :: t) := by
  unfold isDigit at h
  have h := of_decide_eq_true h
  have hinfinity : after "-Infinity" (45 :: c :: t) = none := by
    unfold after
    apply if_neg
    intro hp
    have hi := (List.cons_prefix_cons.mp (List.cons_prefix_cons.mp hp).2).1
    rw [← hi] at h
    revert h
    decide
  unfold scanScalar
  rw [after_none (w := 110) rfl (by decide), after_none (w := 116) rfl (by decide),
    after_none (w := 102) rfl (by decide), after_none (w := 78) rfl (by decide),
    after_none (w := 73) rfl (by decide), hinfinity]
  exact congrArg (fun r => match r with
    | some rest => scanUnsigned true rest
    | none => scanUnsigned false (45 :: c :: t)) (after_self "-" (c :: t))

/-- An integer that has not too many digits is read back. -/
theorem scanScalar_int {n : Int} {t : Text} (h : shortInt n = true) (ht : Delimited t) :
    scanScalar (intText n ++ t) = some (.int n, t) := by
  have hlength := shortInt_iff.mp h
  obtain ⟨d, ds, hds⟩ := List.exists_cons_of_ne_nil
    (show Nat.toDigits 10 n.natAbs ≠ [] from Nat.toDigits_ne_nil)
  have hdigit := digits_isDigit n.natAbs (ofChar d) (by rw [hds]; exact List.mem_cons_self)
  by_cases hn : 0 ≤ n
  · have hread := scanUnsigned_digits false hlength ht
    rw [intText_nonneg hn]
    rw [hds] at hread ⊢
    rw [List.map_cons, List.cons_append, scanScalar_unsigned hdigit, ← List.cons_append,
      ← List.map_cons, hread]
    simp only [Bool.false_eq_true, if_false]
    rw [Int.natAbs_of_nonneg hn]
  · have hread := scanUnsigned_digits true hlength ht
    rw [intText_neg (by omega)]
    rw [hds] at hread ⊢
    rw [List.map_cons, List.cons_append, List.cons_append, scanScalar_minus hdigit,
      ← List.cons_append, ← List.map_cons, hread]
    simp only [if_true]
    rw [Int.ofNat_natAbs_of_nonpos (by omega), neg_neg]

end JsonText
