-- The redaction of provider errors (deepseek.py): after it, no echo of the API key
-- is left in the text that is kept.
import FlynnAgents.Results
import FlynnAgents.Lib.Substitute

namespace FlynnAgents

open Text (ofString ofChar)
open Substitute (Hit Rule replaceAll)

/-! ## Patterns -/

/-- A key that the adapter accepted, as it is sent: ASCII without line breaks, stripped. -/
structure ApiKey where
  text : Text
  nonempty : text ≠ []
  ascii : ∀ c ∈ text, c.val < 128
  stripped : (∀ c ∈ text.head?, isSpaceCode c = false) ∧ ∀ c ∈ text.getLast?, isSpaceCode c = false
  oneLine : ∀ c ∈ text, c.val ≠ 10 ∧ c.val ≠ 13

/-- The lowercase of a letter of ASCII. -/
def asciiLower (n : Nat) : Nat := if 65 ≤ n ∧ n ≤ 90 then n + 32 else n

/-- The case of a character as `re.IGNORECASE` compares it to one of ASCII: beside the letters
of ASCII, two characters count as `i`, one as `s` and one as `k`. -/
def foldCase (c : CodePoint) : Nat :=
  if c.val = 0x130 ∨ c.val = 0x131 then 105
  else if c.val = 0x17f then 115
  else if c.val = 0x212a then 107
  else asciiLower c.val

/-- The rest of the text after this pattern of ASCII characters, in either case. -/
def afterCase : Text → Text → Option Text
  | [], t => some t
  | _ :: _, [] => none
  | p :: pattern, c :: t => if foldCase c = asciiLower p.val then afterCase pattern t else none

/-- `f"{ord(c):04x}"` -/
def hex04 (c : CodePoint) : Text :=
  [ofChar (hexDigit (c.val / 4096 % 16)), ofChar (hexDigit (c.val / 256 % 16)),
    ofChar (hexDigit (c.val / 16 % 16)), ofChar (hexDigit (c.val % 16))]

/-- `f"{ord(c):02x}"` of a character of ASCII -/
def hex02 (c : CodePoint) : Text :=
  [ofChar (hexDigit (c.val / 16 % 16)), ofChar (hexDigit (c.val % 16))]

/-- The rest of the text after the pattern of a key: each character as itself, as a JSON escape
or as a URL escape, tried in this order. -/
def afterKey : Text → Text → Option Text
  | [], t => some t
  | c :: key, t =>
    (((afterCase [c] t).bind (afterKey key)).or
      ((afterCase (ofString "\\u" ++ hex04 c) t).bind (afterKey key))).or
      ((afterCase (ofString "%" ++ hex02 c) t).bind (afterKey key))

/-- A match without anything written beside the marker. -/
def plainHit (t rest : Text) : Hit CodePoint := ⟨[], [], t.length - rest.length⟩

/-- A literal string, for `str.replace`. -/
def literal (value : Text) : Rule CodePoint := fun _ t =>
  if value <+: t then some ⟨[], [], value.length⟩ else none

/-- `re.sub(escaped, "[REDACTED]", text, flags=re.IGNORECASE)` -/
def keyRule (key : Text) : Rule CodePoint := fun _ t => (afterKey key t).map (plainHit t)

/-- A character of `[^\s"'<>\\]` -/
def tokenChar (c : CodePoint) : Bool :=
  !isSpaceCode c && !([34, 39, 60, 62, 92].contains c.val)

/-- `(?i)\bbearer\s+[^\s"'<>\\]+`, replaced by `Bearer [REDACTED]`. -/
def bearerRule (isWord : CodePoint → Bool) : Rule CodePoint := fun previous t =>
  if previous.any isWord then none
  else (afterCase (ofString "bearer") t).bind fun rest =>
    let spaces := rest.takeWhile isSpaceCode
    let token := (rest.dropWhile isSpaceCode).takeWhile tokenChar
    if spaces = [] ∨ token = [] then none
    else some ⟨ofString "Bearer ", [], 6 + spaces.length + token.length⟩

/-- The names of the fields, an optional character of a name first as each spelling that it
has and then left out. -/
def fieldNames : List String :=
  ["authorization", "x-api-key", "api_key", "api-key", "apikey", "access_token", "access-token",
    "accesstoken", "refresh_token", "refresh-token", "refreshtoken", "token", "password",
    "cookie", "set-cookie", "client_secret", "client-secret", "clientsecret"]

/-- The rest of the text after a field name with this character after it. -/
def afterField (delimiter : Nat) (t : Text) : Option Text :=
  fieldNames.findSome? fun name => match afterCase (ofString name) t with
    | some (c :: rest) => if c.val = delimiter then some rest else none
    | _ => none

/-- The rest after this character. -/
def afterChar (n : Nat) : Text → Option Text
  | [] => none
  | c :: rest => if c.val = n then some rest else none

/-- The rest of `(?:\\.|[^"\\])*"`. -/
def afterQuoted : Text → Option Text
  | [] => none
  | c :: rest =>
    if c.val = 34 then some rest
    else if c.val = 92 then match rest with
      | [] => none
      | d :: rest => if d.val = 10 then none else afterQuoted rest
    else afterQuoted rest

/-- What stands before a rest of the text. -/
def upTo (t rest : Text) : Text := t.take (t.length - rest.length)

/-- `("(?:fields)"\s*:\s*)"(?:\\.|[^"\\])*"`, replaced by `\1"[REDACTED]"`. -/
def jsonRule : Rule CodePoint := fun _ t => do
  let rest ← afterChar 34 t
  let rest ← afterField 34 rest
  let rest ← afterChar 58 (rest.dropWhile isSpaceCode)
  let rest := rest.dropWhile isSpaceCode
  let inner ← afterChar 34 rest
  let last ← afterQuoted inner
  return ⟨upTo t inner, [34], t.length - last.length⟩

/-- A character of `[^\r\n]` -/
def lineChar (c : CodePoint) : Bool := c.val != 10 && c.val != 13

/-- `^(\s*(?:fields):)[^\r\n]*`, replaced by `\1 [REDACTED]`. -/
def headerRule : Rule CodePoint := fun previous t =>
  if previous.all (fun c => c.val = 10) then
    (afterField 58 (t.dropWhile isSpaceCode)).map fun rest =>
      ⟨upTo t rest ++ [32], [], t.length - (rest.dropWhile lineChar).length⟩
  else none

/-- A character of `[^&\s"'<>]` -/
def queryChar (c : CodePoint) : Bool :=
  !isSpaceCode c && !([38, 34, 39, 60, 62].contains c.val)

/-- `([?&](?:fields)=)[^&\s"'<>]*`, replaced by `\1[REDACTED]`. -/
def queryRule : Rule CodePoint := fun _ t =>
  match t with
  | [] => none
  | c :: t' =>
    if c.val = 63 ∨ c.val = 38 then
      (afterField 61 t').map fun rest =>
        ⟨upTo t rest, [], t.length - (rest.dropWhile queryChar).length⟩
    else none

/-! ## The error body -/

/-- `json.dumps(secret)[1:-1]` -/
def jsonSpelling (secret : Text) : Text := secret.flatMap JsonText.escape

def base64Digit (n : Nat) : CodePoint :=
  ofChar ("ABCDEFGHIJKLMNOPQRSTUVWXYZabcdefghijklmnopqrstuvwxyz0123456789+/".toList.getD n 'A')

/-- `base64.b64encode(secret.encode()).decode()` of a string of ASCII -/
def base64 : Text → Text
  | [] => []
  | [a] => [base64Digit (a.val / 4), base64Digit (a.val % 4 * 16), 61, 61]
  | [a, b] => [base64Digit (a.val / 4), base64Digit (a.val % 4 * 16 + b.val / 16),
      base64Digit (b.val % 16 * 4), 61]
  | a :: b :: c :: rest => base64Digit (a.val / 4) :: base64Digit (a.val % 4 * 16 + b.val / 16) ::
      base64Digit (b.val % 16 * 4 + c.val / 64) :: base64Digit (c.val % 64) :: base64 rest

def marker : Text := ofString "[REDACTED]"

/-- The characters of an error body that are kept. -/
def maxErrorCharacters : Nat := 65536

structure RedactedErrorBody where
  text : Text
  redacted : Bool
  truncated : Bool
  originalBytes : Nat
  deriving DecidableEq, Repr

/-- The eight substitutions of `_error_body`. -/
def redactText (isWord : CodePoint → Bool) (original secret : Text) : Text :=
  let text := replaceAll marker (literal secret) original
  let text := replaceAll marker (literal (jsonSpelling secret)) text
  let text := replaceAll marker (literal (base64 secret)) text
  let text := replaceAll marker (keyRule secret) text
  let text := replaceAll marker (bearerRule isWord) text
  let text := replaceAll marker jsonRule text
  let text := replaceAll marker headerRule text
  replaceAll marker queryRule text

/-- `_error_body`. What is a word character, and how bytes are decoded, are parameters. -/
def errorBody (isWord : CodePoint → Bool) (decode : List UInt8 → Text) (body : List UInt8)
    (secret : Text) : RedactedErrorBody :=
  let original := decode body
  let text := redactText isWord original secret
  ⟨text.take maxErrorCharacters, text != original, decide (maxErrorCharacters < text.length),
    body.length⟩

/-! ## Echoes -/

/-- The string writes each character of the key as itself in either case, as a JSON escape or
as a URL escape with digits in either case. -/
inductive Echo : Text → Text → Prop where
  | done : Echo [] []
  | plain {c d : CodePoint} {key e : Text} (same : asciiLower d.val = asciiLower c.val)
      (rest : Echo key e) : Echo (c :: key) (d :: e)
  | json {c x y z w : CodePoint} {key e : Text} (digits : JsonText.hex4Val x y z w = some c.val)
      (rest : Echo key e) : Echo (c :: key) (92 :: 117 :: x :: y :: z :: w :: e)
  | url {c x y : CodePoint} {m n : Nat} {key e : Text} (first : JsonText.hexVal x = some m)
      (second : JsonText.hexVal y = some n) (digits : m * 16 + n = c.val)
      (rest : Echo key e) : Echo (c :: key) (37 :: x :: y :: e)

/-- The text contains an echo of the key. -/
def HasEcho (key t : Text) : Prop := ∃ e, Echo key e ∧ e <:+: t

variable {key e t rest : Text} {c d : CodePoint}

theorem hexVal_cases {m : Nat} (h : JsonText.hexVal c = some m) :
    (48 ≤ c.val ∧ c.val ≤ 57 ∧ m = c.val - 48) ∨ (97 ≤ c.val ∧ c.val ≤ 102 ∧ m = c.val - 87) ∨
      (65 ≤ c.val ∧ c.val ≤ 70 ∧ m = c.val - 55) := by
  unfold JsonText.hexVal at h
  split at h
  · cases h
    omega
  · split at h
    · cases h
      omega
    · split at h
      · cases h
        omega
      · cases h

theorem hexDigit_val : ∀ k < 16, (ofChar (hexDigit k)).val = if k < 10 then 48 + k else 87 + k := by
  decide

theorem foldCase_ascii (h : c.val < 128) : foldCase c = asciiLower c.val := by
  unfold foldCase
  rw [if_neg (by omega), if_neg (by omega), if_neg (by omega)]

/-- A digit is matched by the pattern of its value. -/
theorem foldCase_hex {m : Nat} (h : JsonText.hexVal c = some m) :
    foldCase c = asciiLower (ofChar (hexDigit m)).val := by
  have hcases := hexVal_cases h
  rw [hexDigit_val m (by omega), foldCase_ascii (by omega)]
  unfold asciiLower
  rcases hcases with ⟨hlow, hhigh, hm⟩ | ⟨hlow, hhigh, hm⟩ | ⟨hlow, hhigh, hm⟩
  · rw [if_pos (show m < 10 by omega), if_neg (by omega), if_neg (by omega)]
    omega
  · rw [if_neg (show ¬ m < 10 by omega), if_neg (by omega), if_neg (by omega)]
    omega
  · rw [if_neg (show ¬ m < 10 by omega), if_pos (by omega), if_neg (by omega)]
    omega

theorem foldCase_same (hc : c.val < 128) (h : asciiLower d.val = asciiLower c.val) :
    foldCase d = asciiLower c.val := by
  have hd : d.val < 128 := by
    unfold asciiLower at h
    split at h <;> split at h <;> omega
  rw [foldCase_ascii hd, h]

theorem afterCase_cons {p : CodePoint} {pattern : Text} (h : foldCase c = asciiLower p.val) :
    afterCase (p :: pattern) (c :: t) = afterCase pattern t := if_pos h

theorem hex4Val_some {x y z w : CodePoint} {n : Nat} (h : JsonText.hex4Val x y z w = some n) :
    ∃ a b c d, JsonText.hexVal x = some a ∧ JsonText.hexVal y = some b ∧
      JsonText.hexVal z = some c ∧ JsonText.hexVal w = some d ∧
      n = a * 4096 + b * 256 + c * 16 + d := by
  unfold JsonText.hex4Val at h
  obtain ⟨a, ha, h⟩ := Option.bind_eq_some_iff.mp h
  obtain ⟨b, hb, h⟩ := Option.bind_eq_some_iff.mp h
  obtain ⟨c, hc, h⟩ := Option.bind_eq_some_iff.mp h
  obtain ⟨d, hd, h⟩ := Option.bind_eq_some_iff.mp h
  cases h
  exact ⟨a, b, c, d, ha, hb, hc, hd, rfl⟩

theorem afterCase_json {x y z w : CodePoint} (h : JsonText.hex4Val x y z w = some c.val) :
    afterCase (ofString "\\u" ++ hex04 c) (92 :: 117 :: x :: y :: z :: w :: t) = some t := by
  obtain ⟨m, n, o, p, hx, hy, hz, hw, hval⟩ := hex4Val_some h
  have hm := hexVal_cases hx
  have hn := hexVal_cases hy
  have ho := hexVal_cases hz
  have hp := hexVal_cases hw
  have h1 : c.val / 4096 % 16 = m := by omega
  have h2 : c.val / 256 % 16 = n := by omega
  have h3 : c.val / 16 % 16 = o := by omega
  have h4 : c.val % 16 = p := by omega
  change afterCase (92 :: 117 :: _ :: _ :: _ :: _ :: []) _ = _
  rw [afterCase_cons (by decide), afterCase_cons (by decide), h1, h2, h3, h4,
    afterCase_cons (foldCase_hex hx), afterCase_cons (foldCase_hex hy),
    afterCase_cons (foldCase_hex hz), afterCase_cons (foldCase_hex hw)]
  rfl

theorem afterCase_url {x y : CodePoint} {m n : Nat} (hx : JsonText.hexVal x = some m)
    (hy : JsonText.hexVal y = some n) (h : m * 16 + n = c.val) :
    afterCase (ofString "%" ++ hex02 c) (37 :: x :: y :: t) = some t := by
  have hm := hexVal_cases hx
  have hn := hexVal_cases hy
  have h1 : c.val / 16 % 16 = m := by omega
  have h2 : c.val % 16 = n := by omega
  change afterCase (37 :: _ :: _ :: []) _ = _
  rw [afterCase_cons (by decide), h1, h2, afterCase_cons (foldCase_hex hx),
    afterCase_cons (foldCase_hex hy)]
  rfl

/-- Backtracking finds an echo wherever one starts. -/
theorem afterKey_echo (hkey : ∀ c ∈ key, c.val < 128) (h : Echo key e) (l : Text) :
    (afterKey key (e ++ l)).isSome = true := by
  induction h with
  | done => rfl
  | @plain c d key e same _ ih =>
    have ih := ih fun c hc => hkey c (List.mem_cons_of_mem _ hc)
    rw [List.cons_append, afterKey,
      afterCase_cons (foldCase_same (hkey c List.mem_cons_self) same), Option.isSome_or,
      Option.isSome_or]
    simp only [afterCase, Option.bind_some, ih, Bool.true_or]
  | @json c x y z w key e digits _ ih =>
    have ih := ih fun c hc => hkey c (List.mem_cons_of_mem _ hc)
    simp only [List.cons_append]
    rw [afterKey, afterCase_json digits, Option.isSome_or, Option.isSome_or]
    simp only [Option.bind_some, ih, Bool.or_true, Bool.true_or]
  | @url c x y m n key e first second digits _ ih =>
    have ih := ih fun c hc => hkey c (List.mem_cons_of_mem _ hc)
    simp only [List.cons_append]
    rw [afterKey, afterCase_url first second digits, Option.isSome_or]
    simp only [Option.bind_some, ih, Bool.or_true]

/-! ## What the marker keeps apart -/

/-- No character of an echo is a bracket. -/
theorem echo_no_bracket (hkey : ∀ c ∈ key, c.val ≠ 91 ∧ c.val ≠ 93) (h : Echo key e) :
    ∀ c ∈ e, c.val ≠ 91 ∧ c.val ≠ 93 := by
  have hhex : ∀ {x : CodePoint} {m : Nat}, JsonText.hexVal x = some m →
      x.val ≠ 91 ∧ x.val ≠ 93 := by
    intro x m hx
    have := hexVal_cases hx
    omega
  induction h with
  | done => simp
  | @plain c d key e same _ ih =>
    rw [List.forall_mem_cons] at hkey ⊢
    refine ⟨?_, ih hkey.2⟩
    have hc := hkey.1
    unfold asciiLower at same
    split at same <;> split at same <;> omega
  | @json c x y z w key e digits _ ih =>
    obtain ⟨_, _, _, _, hx, hy, hz, hw, -⟩ := hex4Val_some digits
    rw [List.forall_mem_cons] at hkey
    simp only [List.forall_mem_cons]
    exact ⟨by decide, by decide, hhex hx, hhex hy, hhex hz, hhex hw, ih hkey.2⟩
  | @url c x y m n key e first second digits _ ih =>
    rw [List.forall_mem_cons] at hkey
    simp only [List.forall_mem_cons]
    exact ⟨by decide, hhex first, hhex second, ih hkey.2⟩

/-- An echo without a backslash or a percent sign is the key in some case. -/
theorem echo_lower (h : Echo key e) (hback : ∀ c ∈ e, c.val ≠ 92 ∧ c.val ≠ 37) :
    e.map (fun c => asciiLower c.val) = key.map fun c => asciiLower c.val := by
  induction h with
  | done => rfl
  | @plain c d key e same _ ih =>
    rw [List.forall_mem_cons] at hback
    rw [List.map_cons, List.map_cons, same, ih hback.2]
  | json digits _ ih => exact absurd rfl (hback 92 List.mem_cons_self).1
  | url first second digits _ ih => exact absurd rfl (hback 37 List.mem_cons_self).2

theorem echo_nonempty (hkey : key ≠ []) (h : Echo key e) : e ≠ [] := by
  cases h with
  | done => exact absurd rfl hkey
  | _ => simp

theorem prefix_apart {α : Type} {e l l' : List α} {c : α} (hc : c ∉ e) (h : e <+: l ++ c :: l') :
    e <+: l := by
  induction l generalizing e with
  | nil =>
    cases e with
    | nil => exact List.nil_prefix
    | cons d e =>
      have hd := (List.cons_prefix_cons.mp h).1
      exact absurd (hd ▸ List.mem_cons_self) hc
  | cons a l ih =>
    cases e with
    | nil => exact List.nil_prefix
    | cons d e =>
      obtain ⟨rfl, hrest⟩ := List.cons_prefix_cons.mp h
      exact List.cons_prefix_cons.mpr ⟨rfl, ih (fun hm => hc (List.mem_cons_of_mem d hm)) hrest⟩

/-- What does not hold a character stays on one side of it. -/
theorem infix_apart {α : Type} {e l l' : List α} {c : α} (hc : c ∉ e) (h : e <:+: l ++ c :: l') :
    e <:+: l ∨ e <:+: l' := by
  induction l with
  | nil =>
    rw [List.nil_append, List.infix_cons_iff] at h
    rcases h with hp | hi
    · exact .inl (prefix_apart (l := []) hc hp).isInfix
    · exact .inr hi
  | cons a l ih =>
    rw [List.cons_append, List.infix_cons_iff] at h
    rcases h with hp | hi
    · exact .inl (prefix_apart (l := a :: l) hc hp).isInfix
    · exact (ih hi).imp (fun h => h.trans (List.infix_cons (List.infix_refl l))) id

/-- The key is no part of the word in the marker, in any case. -/
def OutsideMarker (key : Text) : Prop :=
  ¬ key.map (fun c => asciiLower c.val) <:+: (ofString "REDACTED").map fun c => asciiLower c.val

theorem marker_apart (hkey : ∀ c ∈ key, c.val ≠ 91 ∧ c.val ≠ 93) (hout : OutsideMarker key)
    {l l' : Text} (h : Echo key e) (hin : e <:+: l ++ marker ++ l') : e <:+: l ∨ e <:+: l' := by
  have hbracket := echo_no_bracket hkey h
  have hmarker : l ++ marker ++ l' = l ++ 91 :: (ofString "REDACTED" ++ 93 :: l') := by
    have hword : marker = 91 :: (ofString "REDACTED" ++ [93]) := by decide
    rw [hword]
    simp
  rw [hmarker] at hin
  rcases infix_apart (fun hm => (hbracket _ hm).1 rfl) hin with hleft | hin
  · exact .inl hleft
  rcases infix_apart (fun hm => (hbracket _ hm).2 rfl) hin with hword | hright
  · have hletters : ∀ c ∈ ofString "REDACTED", c.val ≠ 92 ∧ c.val ≠ 37 := by
      have hall : (ofString "REDACTED").all (fun c => c.val != 92 && c.val != 37) = true := by
        decide
      intro c hc
      simpa using List.all_eq_true.mp hall c hc
    rw [OutsideMarker, ← echo_lower h fun c hc => hletters c (hword.subset hc)] at hout
    exact absurd (hword.map _) hout
  · exact .inr hright

theorem found_echo (hkey : ∀ c ∈ key, c.val ≠ 91 ∧ c.val ≠ 93) (hout : OutsideMarker key) :
    Substitute.Found marker (HasEcho key) where
  infix_closed := by
    rintro l l' hl ⟨e, he, hin⟩
    exact ⟨e, he, hin.trans hl⟩
  apart := by
    rintro l l' ⟨e, he, hin⟩
    exact (marker_apart hkey hout he hin).imp (fun h => ⟨e, he, h⟩) fun h => ⟨e, he, h⟩

/-! ## The rules make no echo -/

/-- The character that `drop` of what was consumed leaves is the rest. -/
theorem drop_to_suffix {α : Type} {t rest : List α} (h : rest <:+ t) :
    t.drop (t.length - rest.length) = rest := by
  obtain ⟨l, rfl⟩ := h
  simp

theorem upTo_append (h : rest <:+ t) : upTo t rest ++ rest = t := by
  obtain ⟨l, rfl⟩ := h
  simp [upTo]

theorem afterChar_eq {n : Nat} (h : afterChar n t = some rest) :
    ∃ c, t = c :: rest ∧ c.val = n := by
  cases t with
  | nil => cases h
  | cons c t =>
    unfold afterChar at h
    simp only at h
    by_cases hc : c.val = n
    · rw [if_pos hc] at h
      cases h
      exact ⟨c, rfl, hc⟩
    · rw [if_neg hc] at h
      cases h

/-- What a pattern has matched. -/
theorem afterCase_eq {pattern : Text} (h : afterCase pattern t = some rest) :
    ∃ m, t = m ++ rest ∧ List.Forall₂ (fun p c => foldCase c = asciiLower p.val) pattern m := by
  induction pattern generalizing t with
  | nil =>
    cases h
    exact ⟨[], rfl, .nil⟩
  | cons p pattern ih =>
    cases t with
    | nil => cases h
    | cons c t =>
      unfold afterCase at h
      split at h
      · obtain ⟨m, rfl, hm⟩ := ih h
        exact ⟨c :: m, rfl, .cons ‹_› hm⟩
      · cases h

theorem afterField_suffix {n : Nat} (h : afterField n t = some rest) :
    rest <:+ t ∧ rest.length < t.length := by
  unfold afterField at h
  obtain ⟨name, -, hname⟩ := List.exists_of_findSome?_eq_some h
  split at hname
  · rename_i c rest' hcase
    split at hname
    · cases hname
      obtain ⟨m, rfl, -⟩ := afterCase_eq hcase
      refine ⟨⟨m ++ [c], by simp⟩, by simp; omega⟩
    · cases hname
  · cases hname

theorem afterQuoted_suffix (h : afterQuoted t = some rest) : ∃ c, c.val = 34 ∧ c :: rest <:+ t := by
  fun_induction afterQuoted t with
  | case1 => cases h
  | case2 c t hc =>
    cases h
    exact ⟨c, hc, List.suffix_refl _⟩
  | case3 c hc hb => cases h
  | case4 c hc hb d rest hd => cases h
  | case5 c hc hb d rest hd ih =>
    obtain ⟨q, hq, hsuffix⟩ := ih h
    exact ⟨q, hq, hsuffix.trans ((List.suffix_cons d _).trans (List.suffix_cons c _))⟩
  | case6 c rest hc hb ih =>
    obtain ⟨q, hq, hsuffix⟩ := ih h
    exact ⟨q, hq, hsuffix.trans (List.suffix_cons c _)⟩

/-- An echo of a stripped key does not end in a space. -/
theorem echo_last (h : Echo key e) (hkey : ∀ c ∈ key.getLast?, isSpaceCode c = false) :
    ∀ c ∈ e.getLast?, isSpaceCode c = false := by
  have hhex : ∀ {x : CodePoint} {m : Nat}, JsonText.hexVal x = some m → isSpaceCode x = false := by
    intro x m hx
    have := hexVal_cases hx
    simp only [isSpaceCode, Bool.or_eq_false_iff, Bool.and_eq_false_iff, decide_eq_false_iff_not,
      beq_eq_false_iff_ne]
    omega
  -- the last character stands for the last of the key, or for an earlier one if the key ends
  have hstep : ∀ {c : CodePoint} {key e w : Text}, Echo key e →
      (∀ x ∈ (c :: key).getLast?, isSpaceCode x = false) →
      (key = [] → ∀ d ∈ w.getLast?, isSpaceCode d = false) → w ≠ [] →
      ((∀ c ∈ key.getLast?, isSpaceCode c = false) → ∀ d ∈ e.getLast?, isSpaceCode d = false) →
      ∀ d ∈ (w ++ e).getLast?, isSpaceCode d = false := by
    intro c key e w he hlast hw hne ih
    cases key with
    | nil =>
      cases he
      rw [List.append_nil]
      exact hw rfl
    | cons k key =>
      rw [List.getLast?_cons_cons] at hlast
      have hne' := echo_nonempty (List.cons_ne_nil k key) he
      rw [List.getLast?_append_of_ne_nil _ hne']
      exact ih hlast
  induction h with
  | done => simp
  | @plain c d key e same he ih =>
    refine hstep (w := [d]) he hkey ?_ (by simp) ih
    rintro rfl x hx
    simp only [List.getLast?_singleton, Option.mem_def, Option.some.injEq] at hx
    subst hx
    have hc := hkey c (by simp)
    unfold asciiLower at same
    simp only [isSpaceCode, Bool.or_eq_false_iff, Bool.and_eq_false_iff, decide_eq_false_iff_not,
      beq_eq_false_iff_ne] at hc ⊢
    split at same <;> split at same <;> omega
  | @json c x y z w key e digits he ih =>
    obtain ⟨_, _, _, _, -, -, -, hw, -⟩ := hex4Val_some digits
    refine hstep (w := [92, 117, x, y, z, w]) he hkey ?_ (by simp) ih
    rintro - q hq
    simp only [List.getLast?_cons_cons, List.getLast?_singleton, Option.mem_def,
      Option.some.injEq] at hq
    subst hq
    exact hhex hw
  | @url c x y m n key e first second digits he ih =>
    refine hstep (w := [37, x, y]) he hkey ?_ (by simp) ih
    rintro - q hq
    simp only [List.getLast?_cons_cons, List.getLast?_singleton, Option.mem_def,
      Option.some.injEq] at hq
    subst hq
    exact hhex second

theorem echo_trim {l : Text} (hkey : ∀ c ∈ key.getLast?, isSpaceCode c = false) (hne : key ≠ [])
    (h : HasEcho key (l ++ [32])) : HasEcho key l := by
  obtain ⟨e, he, hin⟩ := h
  rcases List.infix_concat_iff.mp hin with hsuffix | hin
  · rcases List.suffix_concat_iff.mp hsuffix with hnil | ⟨u, rfl, -⟩
    · exact absurd hnil (echo_nonempty hne he)
    · have hlast := echo_last he hkey 32 (by simp)
      exact absurd hlast (by decide)
  · exact ⟨e, he, hin⟩

/-- An echo before a rest of the text is one in the text. -/
theorem hasEcho_upTo {l : Text} (hrest : rest <:+ t) (h : HasEcho key (l ++ upTo t rest)) :
    HasEcho key (l ++ t) := by
  obtain ⟨e, he, hin⟩ := h
  refine ⟨e, he, hin.trans ?_⟩
  have hprefix : l ++ upTo t rest <+: l ++ t := by
    refine ⟨rest, ?_⟩
    rw [List.append_assoc, upTo_append hrest]
  exact hprefix.isInfix

/-- Two characters are one letter in either case, and not the one of a JSON escape. -/
def SameLetter (x y : CodePoint) : Prop :=
  x = y ∨ (asciiLower x.val = asciiLower y.val ∧ asciiLower x.val ≠ 117)

theorem SameLetter.eq_of {x y : CodePoint} (h : SameLetter x y)
    (hx : ¬ (65 ≤ x.val ∧ x.val ≤ 90) ∧ ¬ (97 ≤ x.val ∧ x.val ≤ 122)) : x = y := by
  rcases h with h | ⟨h, -⟩
  · exact h
  · apply Fin.ext
    unfold asciiLower at h
    split at h <;> split at h <;> omega

theorem SameLetter.hexVal {x y : CodePoint} (h : SameLetter x y) :
    JsonText.hexVal x = JsonText.hexVal y := by
  rcases h with rfl | ⟨h, -⟩
  · rfl
  · unfold asciiLower at h
    by_cases hx : 65 ≤ x.val ∧ x.val ≤ 90 <;> by_cases hy : 65 ≤ y.val ∧ y.val ≤ 90
    · rw [if_pos hx, if_pos hy] at h
      rw [Fin.ext (show x.val = y.val by omega)]
    · rw [if_pos hx, if_neg hy] at h
      unfold JsonText.hexVal
      rw [← h]
      by_cases hf : x.val ≤ 70
      · rw [if_neg (by omega), if_neg (by omega), if_pos (by omega), if_neg (by omega),
          if_pos (by omega)]
        congr 1
      · rw [if_neg (by omega), if_neg (by omega), if_neg (by omega), if_neg (by omega),
          if_neg (by omega), if_neg (by omega)]
    · rw [if_neg hx, if_pos hy] at h
      unfold JsonText.hexVal
      rw [h]
      by_cases hf : y.val ≤ 70
      · rw [if_neg (by omega), if_pos (by omega), if_neg (by omega), if_neg (by omega),
          if_pos (by omega)]
        congr 1
      · rw [if_neg (by omega), if_neg (by omega), if_neg (by omega), if_neg (by omega),
          if_neg (by omega), if_neg (by omega)]
    · rw [if_neg hx, if_neg hy] at h
      rw [Fin.ext h]

/-- The case of letters does not matter to an echo. -/
theorem echo_same {e' : Text} (h : Echo key e) (hsame : List.Forall₂ SameLetter e e') :
    Echo key e' := by
  induction h generalizing e' with
  | done =>
    cases hsame
    exact .done
  | plain same _ ih =>
    cases hsame with
    | cons hd hrest =>
      refine .plain ?_ (ih hrest)
      rcases hd with rfl | ⟨hd, -⟩
      · exact same
      · rw [← hd, same]
  | json digits _ ih =>
    obtain _ | ⟨h1, hsame⟩ := hsame
    obtain _ | ⟨h2, hsame⟩ := hsame
    obtain _ | ⟨hx, hsame⟩ := hsame
    obtain _ | ⟨hy, hsame⟩ := hsame
    obtain _ | ⟨hz, hsame⟩ := hsame
    obtain _ | ⟨hw, hsame⟩ := hsame
    have h2' := h2.resolve_right fun h => h.2 (by decide)
    rw [← h1.eq_of (by decide), ← h2']
    refine .json ?_ (ih hsame)
    rw [← digits]
    unfold JsonText.hex4Val
    rw [hx.hexVal, hy.hexVal, hz.hexVal, hw.hexVal]
  | url first second digits _ ih =>
    obtain _ | ⟨h1, hsame⟩ := hsame
    obtain _ | ⟨hx, hsame⟩ := hsame
    obtain _ | ⟨hy, hsame⟩ := hsame
    rw [← h1.eq_of (by decide)]
    exact .url (by rw [← hx.hexVal]; exact first) (by rw [← hy.hexVal]; exact second) digits
      (ih hsame)

theorem hasEcho_same {l l' : Text} (hsame : List.Forall₂ SameLetter l l') (h : HasEcho key l) :
    HasEcho key l' := by
  obtain ⟨e, he, s, u, rfl⟩ := h
  rw [List.append_assoc] at hsame
  have htail := List.forall₂_drop s.length hsame
  rw [List.drop_left] at htail
  have hpart := List.forall₂_take e.length htail
  rw [List.take_left] at hpart
  exact ⟨_, echo_same he hpart, (List.take_prefix _ _).isInfix.trans (List.drop_suffix _ _).isInfix⟩

theorem bearer_same {m : Text} (h : List.Forall₂ (fun p c => foldCase c = asciiLower p.val)
    (ofString "bearer") m) : List.Forall₂ SameLetter (ofString "Bearer") m := by
  have hletter : ∀ {c : CodePoint} (b : CodePoint) {p : CodePoint}, foldCase c = asciiLower p.val →
      asciiLower b.val = asciiLower p.val → asciiLower p.val ≠ 105 ∧ asciiLower p.val ≠ 115 ∧
        asciiLower p.val ≠ 107 ∧ asciiLower p.val ≠ 117 → SameLetter b c := by
    intro c b p hc hb hp
    unfold foldCase at hc
    split at hc
    · exact absurd hc.symm hp.1
    · split at hc
      · exact absurd hc.symm hp.2.1
      · split at hc
        · exact absurd hc.symm hp.2.2.1
        · exact .inr ⟨by rw [hb, hc], by rw [hb]; exact hp.2.2.2⟩
  change List.Forall₂ _ [98, 101, 97, 114, 101, 114] m at h
  change List.Forall₂ _ [66, 101, 97, 114, 101, 114] m
  obtain _ | ⟨h1, h⟩ := h
  obtain _ | ⟨h2, h⟩ := h
  obtain _ | ⟨h3, h⟩ := h
  obtain _ | ⟨h4, h⟩ := h
  obtain _ | ⟨h5, h⟩ := h
  obtain _ | ⟨h6, h⟩ := h
  cases h
  exact .cons (hletter 66 h1 (by decide) (by decide))
    (.cons (hletter 101 h2 (by decide) (by decide))
    (.cons (hletter 97 h3 (by decide) (by decide)) (.cons (hletter 114 h4 (by decide) (by decide))
      (.cons (hletter 101 h5 (by decide) (by decide))
        (.cons (hletter 114 h6 (by decide) (by decide)) .nil)))))

section Rules

variable (hkey : ∀ c ∈ key.getLast?, isSpaceCode c = false) (hne : key ≠ [])

include hkey hne

theorem bearer_makes_nothing (isWord : CodePoint → Bool) :
    Substitute.MakesNothing (bearerRule isWord) (HasEcho key) := by
  intro previous t hit h
  unfold bearerRule at h
  split at h
  · cases h
  · obtain ⟨rest, hrest, h⟩ := Option.bind_eq_some_iff.mp h
    simp only at h
    split at h
    · cases h
    · cases h
      obtain ⟨m, rfl, hm⟩ := afterCase_eq hrest
      refine ⟨by simp only; omega, ?_, List.drop_suffix _ _⟩
      intro l hl
      have hspace : ofString "Bearer " = ofString "Bearer" ++ [32] := by decide
      simp only [hspace] at hl
      rw [← List.append_assoc] at hl
      have hbearer := echo_trim hkey hne hl
      have hsame : List.Forall₂ SameLetter (l ++ ofString "Bearer") (l ++ m) :=
        List.rel_append (List.forall₂_same.mpr fun x _ => .inl rfl) (bearer_same hm)
      obtain ⟨e, he, hin⟩ := hasEcho_same hsame hbearer
      refine ⟨e, he, hin.trans ?_⟩
      rw [← List.append_assoc]
      exact (List.prefix_append _ _).isInfix

omit hkey hne in
theorem json_makes_nothing : Substitute.MakesNothing jsonRule (HasEcho key) := by
  intro previous t hit h
  unfold jsonRule at h
  obtain ⟨r₁, h1, h⟩ := Option.bind_eq_some_iff.mp h
  obtain ⟨r₂, h2, h⟩ := Option.bind_eq_some_iff.mp h
  obtain ⟨r₃, h3, h⟩ := Option.bind_eq_some_iff.mp h
  obtain ⟨inner, h4, h⟩ := Option.bind_eq_some_iff.mp h
  obtain ⟨last, h5, h⟩ := Option.bind_eq_some_iff.mp h
  cases h
  obtain ⟨c₁, rfl, -⟩ := afterChar_eq h1
  have h2' := (afterField_suffix h2).1
  obtain ⟨c₃, h3', -⟩ := afterChar_eq h3
  obtain ⟨c₄, h4', -⟩ := afterChar_eq h4
  obtain ⟨q, hq, h5'⟩ := afterQuoted_suffix h5
  have hinner : inner <:+ c₁ :: r₁ := by
    have ha : inner <:+ r₃ :=
      (List.suffix_cons c₄ inner).trans (h4' ▸ List.dropWhile_suffix _)
    have hb : r₃ <:+ r₂ := (List.suffix_cons c₃ r₃).trans (h3' ▸ List.dropWhile_suffix _)
    exact ha.trans (hb.trans (h2'.trans (List.suffix_cons c₁ r₁)))
  have hlast : q :: last <:+ c₁ :: r₁ := h5'.trans hinner
  have hlast' : last <:+ c₁ :: r₁ := (List.suffix_cons q last).trans hlast
  refine ⟨?_, fun l => hasEcho_upTo hinner, ?_⟩
  · have := hlast.length_le
    simp only [List.length_cons] at this ⊢
    omega
  · simp only
    rw [drop_to_suffix hlast']
    have hquote : q = 34 := Fin.ext hq
    rw [List.singleton_append, ← hquote]
    exact hlast

theorem header_makes_nothing : Substitute.MakesNothing headerRule (HasEcho key) := by
  intro previous t hit h
  unfold headerRule at h
  split at h
  · obtain ⟨rest, hrest, rfl⟩ := Option.map_eq_some_iff.mp h
    obtain ⟨hsuffix, hshort⟩ := afterField_suffix hrest
    have hrest' : rest <:+ t := hsuffix.trans (List.dropWhile_suffix _)
    have hless : rest.length < t.length := hshort.trans_le (List.dropWhile_suffix _).length_le
    refine ⟨?_, ?_, List.drop_suffix _ _⟩
    · have := (List.dropWhile_suffix (l := rest) lineChar).length_le
      simp only
      omega
    · intro l hl
      simp only at hl
      rw [← List.append_assoc] at hl
      exact hasEcho_upTo hrest' (echo_trim hkey hne hl)
  · cases h

omit hkey hne in
theorem query_makes_nothing : Substitute.MakesNothing queryRule (HasEcho key) := by
  intro previous t hit h
  unfold queryRule at h
  cases t with
  | nil => cases h
  | cons c t =>
    simp only at h
    split at h
    · obtain ⟨rest, hrest, rfl⟩ := Option.map_eq_some_iff.mp h
      obtain ⟨hsuffix, hshort⟩ := afterField_suffix hrest
      refine ⟨?_, fun l => hasEcho_upTo (hsuffix.trans (List.suffix_cons c t)),
        List.drop_suffix _ _⟩
      have := (List.dropWhile_suffix (l := rest) queryChar).length_le
      simp only [List.length_cons]
      omega
    · cases h

end Rules

/-- Replacing the key leaves no echo of it, whatever the text. -/
theorem key_rule_cleans (hascii : ∀ c ∈ key, c.val < 128) (hne : key ≠ [])
    (hbracket : ∀ c ∈ key, c.val ≠ 91 ∧ c.val ≠ 93) (hout : OutsideMarker key) (t : Text) :
    ¬ HasEcho key (replaceAll marker (keyRule key) t) := by
  rintro ⟨e, he, hin⟩
  refine @Substitute.replaceAll_clean _ marker (keyRule key) t (Echo key) ?_ ?_ ?_ ?_ e he hin
  · intro l l' e he hin
    exact marker_apart hbracket hout he hin
  · intro he
    exact echo_nonempty hne he rfl
  · intro previous e l he
    unfold keyRule
    rw [Option.isSome_map]
    exact afterKey_echo hascii he l
  · intro previous t hit h
    unfold keyRule at h
    obtain ⟨rest, -, rfl⟩ := Option.map_eq_some_iff.mp h
    exact ⟨rfl, rfl⟩

/-- No echo of the key is left in the text of an error, and the text is within its bound and
marked exactly if something was cut. -/
theorem redaction_leaves_no_echo (isWord : CodePoint → Bool) (decode : List UInt8 → Text)
    (body : List UInt8) (key : ApiKey) (hbracket : ∀ c ∈ key.text, c.val ≠ 91 ∧ c.val ≠ 93)
    (hout : OutsideMarker key.text) :
    ¬ HasEcho key.text (errorBody isWord decode body key.text).text ∧
      (errorBody isWord decode body key.text).text.length ≤ maxErrorCharacters ∧
      ((errorBody isWord decode body key.text).truncated = true ↔
        (errorBody isWord decode body key.text).text ≠
          redactText isWord (decode body) key.text) := by
  have hfound := found_echo hbracket hout
  have hlast := key.stripped.2
  refine ⟨?_, ?_, ?_⟩
  · intro h
    have hfull : HasEcho key.text (redactText isWord (decode body) key.text) :=
      hfound.infix_closed _ _ (List.take_prefix _ _).isInfix h
    unfold redactText at hfull
    have hheader := Substitute.replaceAll_found hfound query_makes_nothing hfull
    have hjson := Substitute.replaceAll_found hfound
      (header_makes_nothing hlast key.nonempty) hheader
    have hbearer := Substitute.replaceAll_found hfound json_makes_nothing hjson
    have hkeyed := Substitute.replaceAll_found hfound
      (bearer_makes_nothing hlast key.nonempty isWord) hbearer
    exact key_rule_cleans key.ascii key.nonempty hbracket hout _ hkeyed
  · exact List.length_take_le _ _
  · unfold errorBody
    simp only [decide_eq_true_eq]
    constructor
    · intro hlong heq
      have hlength := congrArg List.length heq
      rw [List.length_take] at hlength
      omega
    · intro hne
      by_contra hshort
      exact hne (List.take_of_length_le (by omega))

/-- The key `sk-1`. -/
def shortKey : ApiKey where
  text := ofString "sk-1"
  nonempty := by decide
  ascii := by
    have hall : (ofString "sk-1").all (fun c => decide (c.val < 128)) = true := by decide
    intro c hc
    exact of_decide_eq_true (List.all_eq_true.mp hall c hc)
  stripped := by
    constructor
    · rintro c (h : some 115 = some c)
      cases h
      decide
    · rintro c (h : some 49 = some c)
      cases h
      decide
  oneLine := by
    have hall : (ofString "sk-1").all (fun c => decide (c.val ≠ 10 ∧ c.val ≠ 13)) = true := by
      decide
    intro c hc
    exact of_decide_eq_true (List.all_eq_true.mp hall c hc)

theorem redaction_leaves_no_echo_sample : ¬ HasEcho shortKey.text
    (errorBody (fun _ => false) (fun _ => ofString "bad key sk-1") [0] shortKey.text).text :=
  (redaction_leaves_no_echo (fun _ => false) (fun _ => ofString "bad key sk-1") [0] shortKey
    (by
      have hall : (ofString "sk-1").all (fun c => decide (c.val ≠ 91 ∧ c.val ≠ 93)) = true := by
        decide
      intro c hc
      exact of_decide_eq_true (List.all_eq_true.mp hall c hc))
    (show ¬ (ofString "sk-1").map (fun c => asciiLower c.val) <:+:
      (ofString "REDACTED").map fun c => asciiLower c.val by decide)).1

end FlynnAgents
