import RtbBidder.Lib.Hex
import RtbBidder.Lib.Joined

/-! The query component of a URL as `application/x-www-form-urlencoded`: pairs separated
by `&`, each split at its first `=`, with `+` for a blank and `%XX` for a byte. Decimal
numerals, which are written without escapes, are read here too. -/

namespace Lib.Form

section Percent

/-- The bytes that are safe stand for themselves. -/
def percentEncode (safe : UInt8 → Bool) (bytes : List UInt8) : List Char :=
  bytes.flatMap fun b =>
    if safe b then [Char.ofNat b.toNat]
    else ['%', Hex.upper (b.toNat / 16), Hex.upper (b.toNat % 16)]

/-- The byte of an escape: `c` is the `%` and its digits come next. -/
def escape (c : Char) (cs : List Char) : Option UInt8 :=
  match c, cs with
  | '%', hi :: lo :: _ => Hex.byte hi lo
  | _, _ => none

/-- Decode after the next `skip` characters, the digits of an escape already read. A `%`
that no two digits follow stands for itself. -/
def decodeFrom : ℕ → List Char → List UInt8
  | _, [] => []
  | skip + 1, _ :: cs => decodeFrom skip cs
  | 0, c :: cs =>
    match escape c cs with
    | some b => b :: decodeFrom 2 cs
    | none => (if c = '+' then [0x20] else String.utf8EncodeChar c) ++ decodeFrom 0 cs

def decode (cs : List Char) : List UInt8 := decodeFrom 0 cs

/-- The characters with a meaning of their own in a query or at its end. -/
def delimiters : List Char := ['&', '=', '#']

/-- Safe bytes are ASCII characters that need no escape. -/
def SafeSet (safe : UInt8 → Bool) : Prop :=
  ∀ b, safe b → b.toNat < 128 ∧ Char.ofNat b.toNat ∉ '+' :: '%' :: delimiters

variable {safe : UInt8 → Bool} {b : UInt8}

theorem utf8EncodeChar_ascii : ∀ n < 128, String.utf8EncodeChar (Char.ofNat n) = [UInt8.ofNat n] := by
  decide +kernel

theorem upper_notMem_delimiters : ∀ n < 16, Hex.upper n ∉ delimiters := by decide

theorem decode_plain {c : Char} (hplus : c ≠ '+') (hpercent : c ≠ '%') (cs : List Char) :
    decode (c :: cs) = String.utf8EncodeChar c ++ decode cs := by
  have hescape : escape c cs = none := by
    unfold escape
    split
    · exact absurd rfl hpercent
    · rfl
  simp only [decode, decodeFrom, hescape, if_neg hplus]

theorem decode_escape (b : UInt8) (cs : List Char) :
    decode ('%' :: Hex.upper (b.toNat / 16) :: Hex.upper (b.toNat % 16) :: cs) = b :: decode cs := by
  have hescape : escape '%' (Hex.upper (b.toNat / 16) :: Hex.upper (b.toNat % 16) :: cs) = some b :=
    Hex.byte_digits Hex.value_upper b
  simp only [decode, decodeFrom, hescape]

/-- Decoding is the inverse of encoding. -/
theorem decode_percentEncode (hs : SafeSet safe) (bytes : List UInt8) :
    decode (percentEncode safe bytes) = bytes := by
  induction bytes with
  | nil => rfl
  | cons b bytes ih =>
    rw [percentEncode, List.flatMap_cons, ← percentEncode]
    split_ifs with hb
    · obtain ⟨hlt, hmem⟩ := hs b hb
      simp only [List.mem_cons, not_or] at hmem
      rw [List.singleton_append, decode_plain hmem.1 hmem.2.1, utf8EncodeChar_ascii _ hlt,
        UInt8.ofNat_toNat, ih]
      rfl
    · simp only [List.cons_append, List.nil_append, decode_escape, ih]

/-- An encoded value has no delimiter to be taken for the end of it. -/
theorem percentEncode_notMem (hs : SafeSet safe) (bytes : List UInt8) {c : Char}
    (hc : c ∈ delimiters) : c ∉ percentEncode safe bytes := by
  intro hmem
  obtain ⟨b, -, hmem⟩ := List.mem_flatMap.1 hmem
  have hb := b.toNat_lt
  split_ifs at hmem with hsafe
  · obtain rfl := List.mem_singleton.1 hmem
    exact (hs b hsafe).2 (by simp [hc])
  · simp only [List.mem_cons, List.not_mem_nil, or_false] at hmem
    rcases hmem with rfl | rfl | rfl
    · revert hc
      decide
    · exact upper_notMem_delimiters _ (by omega) hc
    · exact upper_notMem_delimiters _ (by omega) hc

/-- Text without a blank or an escape is decoded to itself. -/
theorem decode_of_forall {cs : List Char} (h : ∀ c ∈ cs, c ≠ '+' ∧ c ≠ '%') :
    decode cs = cs.flatMap String.utf8EncodeChar := by
  induction cs with
  | nil => rfl
  | cons c cs ih =>
    obtain ⟨⟨hplus, hpercent⟩, hcs⟩ := List.forall_mem_cons.1 h
    rw [decode_plain hplus hpercent, ih hcs, List.flatMap_cons]

end Percent

section Pairs

/-- The pairs of a query, decoded; empty ones are skipped. -/
def pairs (query : List Char) : List (List UInt8 × List UInt8) :=
  ((query.splitOn '&').filter (!·.isEmpty)).map fun p =>
    (decode (p.takeWhile (· ≠ '=')), decode ((p.dropWhile (· ≠ '=')).drop 1))

/-- A query of encoded pairs. -/
def serialize (ps : List (List Char × List Char)) : List Char :=
  ['&'].intercalate (ps.map fun p => p.1 ++ '=' :: p.2)

theorem pairs_serialize {ps : List (List Char × List Char)} (hne : ps ≠ [])
    (hkey : ∀ p ∈ ps, '&' ∉ p.1 ∧ '=' ∉ p.1) (hval : ∀ p ∈ ps, '&' ∉ p.2) :
    pairs (serialize ps) = ps.map fun p => (decode p.1, decode p.2) := by
  have hsplit : (serialize ps).splitOn '&' = ps.map fun p => p.1 ++ '=' :: p.2 := by
    apply List.splitOn_intercalate
    · intro l hl
      obtain ⟨p, hp, rfl⟩ := List.mem_map.1 hl
      simp [(hkey p hp).1, hval p hp]
    · simpa using hne
  have hfilter : (ps.map fun p => p.1 ++ '=' :: p.2).filter (!·.isEmpty) =
      ps.map fun p => p.1 ++ '=' :: p.2 := by
    rw [List.filter_eq_self]
    intro l hl
    obtain ⟨p, -, rfl⟩ := List.mem_map.1 hl
    simp
  rw [pairs, hsplit, hfilter, List.map_map]
  apply List.map_congr_left
  intro p hp
  have hall : ∀ c ∈ p.1, (decide (c ≠ '=')) = true := by
    intro c hc
    have := (hkey p hp).2
    simp only [ne_eq, decide_eq_true_eq]
    rintro rfl
    exact this hc
  simp only [Function.comp, List.takeWhile_append_of_pos hall, List.dropWhile_append_of_pos hall]
  simp

end Pairs

section Text

/-- The text of decoded bytes; what is not UTF-8 is left to `lossy`. -/
def ofUtf8 (lossy : List UInt8 → String) (bytes : List UInt8) : String :=
  (String.fromUTF8? ⟨bytes.toArray⟩).getD (lossy bytes)

def textPairs (lossy : List UInt8 → String) (query : List Char) : List (String × String) :=
  (pairs query).map fun p => (ofUtf8 lossy p.1, ofUtf8 lossy p.2)

theorem ofUtf8_toUTF8 (lossy : List UInt8 → String) (s : String) :
    ofUtf8 lossy s.toUTF8.data.toList = s := by
  simp [ofUtf8, String.fromUTF8?, String.fromUTF8, String.toUTF8, s.isValidUTF8]

/-- The bytes of some text. -/
def IsUtf8 (bytes : List UInt8) : Prop := ∃ s : String, s.toUTF8.data.toList = bytes

theorem ofUtf8_of_not_isUtf8 (lossy : List UInt8 → String) {bytes : List UInt8}
    (h : ¬ IsUtf8 bytes) : ofUtf8 lossy bytes = lossy bytes := by
  rw [ofUtf8, String.fromUTF8?]
  split_ifs with hvalid
  · exact (h ⟨String.fromUTF8 ⟨bytes.toArray⟩ hvalid, rfl⟩).elim
  · rfl

theorem toUTF8_ofUtf8_iff (lossy : List UInt8 → String) (bytes : List UInt8) :
    (ofUtf8 lossy bytes).toUTF8.data.toList = bytes ↔ IsUtf8 bytes := by
  refine ⟨fun h => ⟨_, h⟩, ?_⟩
  rintro ⟨s, rfl⟩
  rw [ofUtf8_toUTF8]

/-- Two byte strings read as one text only where one of them is the text that the other
is replaced by. -/
theorem ofUtf8_eq_iff {lossy : List UInt8 → String} (hinj : lossy.Injective)
    (b b' : List UInt8) :
    ofUtf8 lossy b = ofUtf8 lossy b' ↔ b = b' ∨
      (¬ IsUtf8 b ∧ b' = (lossy b).toUTF8.data.toList) ∨
      (¬ IsUtf8 b' ∧ b = (lossy b').toUTF8.data.toList) := by
  constructor
  · intro h
    by_cases hb : IsUtf8 b <;> by_cases hb' : IsUtf8 b'
    · rw [← (toUTF8_ofUtf8_iff lossy b).2 hb, h, (toUTF8_ofUtf8_iff lossy b').2 hb']
      exact .inl rfl
    · rw [ofUtf8_of_not_isUtf8 lossy hb'] at h
      exact .inr (.inr ⟨hb', by rw [← h, (toUTF8_ofUtf8_iff lossy b).2 hb]⟩)
    · rw [ofUtf8_of_not_isUtf8 lossy hb] at h
      exact .inr (.inl ⟨hb, by rw [h, (toUTF8_ofUtf8_iff lossy b').2 hb']⟩)
    · rw [ofUtf8_of_not_isUtf8 lossy hb, ofUtf8_of_not_isUtf8 lossy hb'] at h
      exact .inl (hinj h)
  · rintro (rfl | ⟨hb, rfl⟩ | ⟨hb', rfl⟩)
    · rfl
    · rw [ofUtf8_toUTF8, ofUtf8_of_not_isUtf8 lossy hb]
    · rw [ofUtf8_toUTF8, ofUtf8_of_not_isUtf8 lossy hb']

theorem toUTF8_toList (s : String) :
    s.toUTF8.data.toList = s.toList.flatMap String.utf8EncodeChar := by
  rw [String.toUTF8, ← String.utf8Encode_toList, List.utf8Encode, List.data_toByteArray]

/-- Characters that are decoded to a text and can stand in a query for it. -/
structure Encodes (cs : List Char) (s : String) : Prop where
  decode_eq : decode cs = s.toUTF8.data.toList
  notMem : ∀ c ∈ delimiters, c ∉ cs

theorem encodes_percentEncode {safe : UInt8 → Bool} (hs : SafeSet safe) (s : String) :
    Encodes (percentEncode safe s.toUTF8.data.toList) s :=
  ⟨decode_percentEncode hs _, fun _ hc => percentEncode_notMem hs _ hc⟩

/-- A text without any of the special characters stands for itself. -/
theorem encodes_self {s : String} (h : ∀ c ∈ '+' :: '%' :: delimiters, c ∉ s.toList) :
    Encodes s.toList s := by
  constructor
  · rw [toUTF8_toList]
    apply decode_of_forall
    intro c hc
    refine ⟨?_, ?_⟩
    · rintro rfl
      exact h _ (by simp) hc
    · rintro rfl
      exact h _ (by simp) hc
  · intro c hc
    exact h c (List.mem_cons_of_mem _ (List.mem_cons_of_mem _ hc))

/-- A list of encoded pairs and the pairs it encodes. -/
abbrev EncodePairs : List (List Char × List Char) → List (String × String) → Prop :=
  List.Forall₂ fun p q => Encodes p.1 q.1 ∧ Encodes p.2 q.2

variable {ps : List (List Char × List Char)} {qs : List (String × String)}

theorem EncodePairs.notMem (h : EncodePairs ps qs) :
    ∀ p ∈ ps, ∀ c ∈ delimiters, c ∉ p.1 ∧ c ∉ p.2 := by
  induction h with
  | nil => simp
  | cons hpq _ ih =>
    rw [List.forall_mem_cons]
    exact ⟨fun c hc => ⟨hpq.1.notMem c hc, hpq.2.notMem c hc⟩, ih⟩

/-- The pairs read from a query are those that were encoded into it. -/
theorem textPairs_serialize (lossy : List UInt8 → String) (hne : ps ≠ []) (h : EncodePairs ps qs) :
    textPairs lossy (serialize ps) = qs := by
  rw [textPairs, pairs_serialize hne
    (fun p hp => ⟨(h.notMem p hp _ (by decide)).1, (h.notMem p hp _ (by decide)).1⟩)
    (fun p hp => (h.notMem p hp _ (by decide)).2), List.map_map]
  clear hne
  induction h with
  | nil => rfl
  | cons hpq _ ih =>
    simp only [List.map_cons, Function.comp, hpq.1.decode_eq, hpq.2.decode_eq, ofUtf8_toUTF8, ih]

/-- The fragment does not begin inside a query of encoded pairs. -/
theorem notMem_serialize (h : EncodePairs ps qs) : '#' ∉ serialize ps := by
  unfold serialize
  induction h with
  | nil => simp
  | @cons p _ ps _ hpq _ ih =>
    have hkey := hpq.1.notMem '#' (by decide)
    have hval := hpq.2.notMem '#' (by decide)
    cases ps with
    | nil => simp [hkey, hval]
    | cons p' ps =>
      rw [List.map_cons, List.map_cons, List.intercalate_cons_cons]
      simp only [List.mem_append, List.mem_cons, List.not_mem_nil, not_or]
      exact ⟨⟨⟨hkey, by decide, hval⟩, by decide, by simp⟩, ih⟩

end Text

section Url

/-- The query of a URL, between the first `?` and the fragment. -/
def queryOf (url : List Char) : Option (List Char) :=
  match (url.takeWhile (· ≠ '#')).dropWhile (· ≠ '?') with
  | [] => none
  | _ :: query => some query

theorem queryOf_append {base query : List Char} (hmark : '?' ∉ base) (hbase : '#' ∉ base)
    (hquery : '#' ∉ query) : queryOf (base ++ '?' :: query) = some query := by
  have htake : (base ++ '?' :: query).takeWhile (fun c => decide (c ≠ '#')) = base ++ '?' :: query := by
    rw [List.takeWhile_eq_self_iff]
    intro c hc
    simp only [ne_eq, decide_eq_true_eq]
    rintro rfl
    simp [hbase, hquery] at hc
  have hdrop : (base ++ '?' :: query).dropWhile (fun c => decide (c ≠ '?')) = '?' :: query := by
    rw [List.dropWhile_append_of_pos]
    · simp
    · intro c hc
      simp only [ne_eq, decide_eq_true_eq]
      rintro rfl
      exact hmark hc
  rw [queryOf, htake, hdrop]

end Url

section Decimal

/-- The value of a numeral: one digit at least, and digits only. -/
def parseDecimal (cs : List Char) : Option ℕ :=
  if cs ≠ [] ∧ cs.all Char.isDigit then some (Nat.ofDigitChars 10 cs 0) else none

theorem parseDecimal_repr (n : ℕ) : parseDecimal n.repr.toList = some n := by
  have hdigits : (Nat.toDigits 10 n).all Char.isDigit = true := by
    rw [List.all_eq_true]
    intro c hc
    exact Nat.isDigit_of_mem_toDigits (by omega) (by omega) hc
  have hne : Nat.toDigits 10 n ≠ [] := by
    rw [← List.length_pos_iff]
    exact Nat.length_toDigits_pos
  rw [Nat.toList_repr, parseDecimal, if_pos ⟨hne, hdigits⟩, Nat.ofDigitChars_ten_toDigits]

end Decimal

end Lib.Form
