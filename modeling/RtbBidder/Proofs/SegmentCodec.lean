import RtbBidder.Lib.Joined
import RtbBidder.Spec.SegmentWarmup

/-! The seeder's packing and the two decoders of a segment payload agree, and the warm-up
fills the cache with what a fetch would have read. -/

namespace RTB

section Words

theorem toLeBytes_eq (x : UInt32) : toLeBytes x = Lib.leBytes 4 x.toNat := by
  have hbyte (k : UInt32) (hk : k.toNat < 32) :
      (x >>> k).toUInt8 = UInt8.ofNat (x.toNat / 2 ^ k.toNat) := by
    apply UInt8.toNat_inj.1
    rw [UInt32.toNat_toUInt8, UInt32.toNat_shiftRight, Nat.mod_eq_of_lt hk, Nat.shiftRight_eq_div_pow,
      UInt8.toNat_ofNat']
  have hlow : x.toUInt8 = UInt8.ofNat x.toNat := by
    apply UInt8.toNat_inj.1
    rw [UInt32.toNat_toUInt8, UInt8.toNat_ofNat']
  simp only [toLeBytes, Lib.leBytes, Nat.div_div_eq_div_mul, hlow, hbyte 8 (by decide),
    hbyte 16 (by decide), hbyte 24 (by decide)]
  rfl

theorem length_toLeBytes (x : UInt32) : (toLeBytes x).length = 4 := rfl

theorem fromLeBytes_toLeBytes (x : UInt32) : fromLeBytes (toLeBytes x) = x := by
  rw [fromLeBytes, toLeBytes_eq, Lib.leValue_leBytes x.toNat_lt, UInt32.ofNat_toNat]

theorem toLeBytes_fromLeBytes {b : Bytes} (h : b.length = 4) : toLeBytes (fromLeBytes b) = b := by
  have hlt := Lib.leValue_lt b
  rw [h] at hlt
  rw [toLeBytes_eq, fromLeBytes, UInt32.toNat_ofNat_of_lt' hlt, ← h, Lib.leBytes_leValue]

end Words

section Codec

theorem segmentIdsOf_word (a b c d : UInt8) (rest : Bytes) :
    segmentIdsOf (a :: b :: c :: d :: rest) = fromLeBytes [a, b, c, d] :: segmentIdsOf rest := by
  rw [segmentIdsOf, fromLeBytes]
  congr 2
  simp only [Lib.leValue_cons, Lib.leValue_nil]
  omega

theorem segmentIdsOf_structPack (ids : List SegmentId) : segmentIdsOf (structPack ids) = ids := by
  induction ids with
  | nil => rfl
  | cons x ids ih =>
    have hword : structPack (x :: ids) = toLeBytes x ++ structPack ids := List.flatMap_cons
    rw [hword]
    calc segmentIdsOf (toLeBytes x ++ structPack ids)
        = fromLeBytes (toLeBytes x) :: segmentIdsOf (structPack ids) := segmentIdsOf_word ..
      _ = x :: ids := by rw [fromLeBytes_toLeBytes, ih]

theorem length_structPack (ids : List SegmentId) : (structPack ids).length = 4 * ids.length := by
  rw [structPack, List.length_flatMap]
  simp [length_toLeBytes, Nat.mul_comm]

/-- What has no four bytes at its head is shorter than a word. -/
theorem length_lt_four {raw : Bytes}
    (h : ∀ a b c d rest, raw = a :: b :: c :: d :: rest → False) : raw.length < 4 := by
  match raw with
  | [] | [_] | [_, _] | [_, _, _] => simp
  | a :: b :: c :: d :: rest => exact (h a b c d rest rfl).elim

theorem structPack_segmentIdsOf {raw : Bytes} (h : raw.length % 4 = 0) :
    structPack (segmentIdsOf raw) = raw := by
  fun_induction segmentIdsOf raw with
  | case1 a b c d rest ih =>
    simp only [List.length_cons] at h
    have hword : toLeBytes (fromLeBytes [a, b, c, d]) = [a, b, c, d] := toLeBytes_fromLeBytes rfl
    have hid := (List.cons.inj (segmentIdsOf_word a b c d rest)).1
    rw [hid, structPack, List.flatMap_cons, hword, ← structPack, ih (by omega)]
    rfl
  | case2 raw hshort =>
    have hlt := length_lt_four hshort
    exact (List.length_eq_zero_iff.1 (by omega)).symm

theorem warmIds_eq (raw : Bytes) :
    (Lib.chunksExact 4 raw).map fromLeBytes = segmentIdsOf raw := by
  fun_induction segmentIdsOf raw with
  | case1 a b c d rest ih =>
    have hword := (List.cons.inj (segmentIdsOf_word a b c d rest)).1
    have hlen : [a, b, c, d].length = 4 := rfl
    have hblock : Lib.chunksExact 4 (a :: b :: c :: d :: rest) =
        [a, b, c, d] :: Lib.chunksExact 4 rest :=
      Lib.chunksExact_append (by decide) hlen rest
    rw [hblock, List.map_cons, ih, hword]
  | case2 raw hshort => rw [Lib.chunksExact_of_lt (length_lt_four hshort), List.map_nil]

theorem decodeSegments_eq_ok_iff (userId : String) (raw : Bytes) (ids : List SegmentId) :
    decodeSegments userId (some raw) = .ok ids ↔ structPack ids = raw := by
  rw [decodeSegments]
  constructor
  · intro h
    split_ifs at h with hlen
    cases h
    exact structPack_segmentIdsOf (not_not.1 hlen)
  · rintro rfl
    rw [if_neg (by rw [length_structPack]; omega), segmentIdsOf_structPack]

theorem warmDecode_eq_some_iff (raw : Bytes) (ids : List SegmentId) :
    warmDecode raw = some ids ↔ structPack ids = raw := by
  rw [← decodeSegments_eq_ok_iff "", warmDecode, decodeSegments, warmIds_eq]
  split_ifs <;> simp

/-- The decoder of `segments_for` and the packing of the seeder are inverse to each other,
bytes that are no packing are those with an incomplete word, and the warm-up decodes the
same bytes to the same ids. -/
theorem segment_payload_codec (userId : String) :
    (∀ ids, decodeSegments userId (some (structPack ids)) = .ok ids) ∧
      (∀ raw, (∃ e, decodeSegments userId (some raw) = .error e) ↔ raw.length % 4 ≠ 0) ∧
      (∀ raw ids, decodeSegments userId (some raw) = .ok ids ↔ structPack ids = raw) ∧
      ∀ raw ids, warmDecode raw = some ids ↔ decodeSegments userId (some raw) = .ok ids := by
  refine ⟨?_, ?_, decodeSegments_eq_ok_iff userId, ?_⟩
  · intro ids
    exact (decodeSegments_eq_ok_iff userId _ ids).2 rfl
  · intro raw
    rw [decodeSegments]
    split_ifs with hlen <;> simp [hlen]
  · intro raw ids
    rw [warmDecode_eq_some_iff, decodeSegments_eq_ok_iff]

end Codec

section WarmUp

variable {redis : String → Option Bytes}

theorem trimStartMatches_append {pattern cs : List Char} (h : ¬ pattern <+: cs) (fuel : ℕ) :
    trimStartMatches pattern (fuel + 1) (pattern ++ cs) = cs := by
  have hstop : trimStartMatches pattern fuel cs = cs := by
    cases fuel with
    | zero => rfl
    | succ fuel => rw [trimStartMatches, if_neg (by simpa using h)]
  rw [trimStartMatches, if_pos (by simp), List.drop_left, hstop]

theorem userIdOfKey_segKey (id : UInt32) : userIdOfKey (segKey (toString id)) = toString id := by
  have hdigit {c : Char} (hc : c.isDigit = false) : c ∉ (toString id).toList :=
    Lib.notMem_repr hc id.toNat
  have hkey : (segKey (toString id)).toList =
      "v1:seg:\x7bu:".toList ++ ((toString id).toList ++ ['\x7d']) := by
    simp [segKey]
  -- the trimming stops after one occurrence of the pattern, since the id has no letter
  have hstart : ¬ "v1:seg:\x7bu:".toList <+: (toString id).toList ++ ['\x7d'] := by
    intro h
    have hv : 'v' ∈ (toString id).toList ++ ['\x7d'] := h.mem (by decide)
    simp [hdigit (show 'v'.isDigit = false by decide)] at hv
  obtain ⟨fuel, hfuel⟩ : ∃ fuel, (segKey (toString id)).length = fuel + 1 := by
    rw [← String.length_toList, hkey]
    exact ⟨_, rfl⟩
  have hend : ((toString id).toList ++ ['\x7d']).rdropWhile (· = '\x7d') = (toString id).toList := by
    rw [List.rdropWhile_concat_pos _ _ _ (by decide), List.rdropWhile_eq_self_iff]
    intro hne hlast
    have hmem := List.getLast_mem hne
    rw [of_decide_eq_true hlast] at hmem
    exact hdigit (by decide) hmem
  rw [userIdOfKey, hfuel, hkey, trimStartMatches_append hstart, hend, String.ofList_toList]

/-- What the warm-up puts into the cache for a user. -/
def warmValue (redis : String → Option Bytes) (userId : String) : Option SegmentEntry :=
  (redis (segKey userId)).bind fun raw => (warmDecode raw).map fun ids => ⟨ids, some (some raw)⟩

/-- The part of a batch for one user. -/
def warmUser (redis : String → Option Bytes) (cache : String → Option SegmentEntry) (id : UInt32) :
    String → Option SegmentEntry :=
  warmInsert cache (segKey (toString id), redis (segKey (toString id)))

theorem warmUser_eq (cache : String → Option SegmentEntry) (id : UInt32) :
    warmUser redis cache id = (warmValue redis (toString id)).elim cache
      (getOrInsert cache (toString id)) := by
  rw [warmUser, warmInsert, warmValue, userIdOfKey_segKey]
  cases redis (segKey (toString id)) with
  | none => rfl
  | some raw => cases hdec : warmDecode raw <;> simp [hdec]

theorem getOrInsert_apply (cache : String → Option SegmentEntry) (key userId : String)
    (entry : SegmentEntry) :
    getOrInsert cache key entry userId =
      (cache userId).or (if userId = key then some entry else none) := by
  rw [getOrInsert]
  by_cases hkey : userId = key
  · subst hkey
    cases hc : cache userId <;> simp [hc]
  · rw [if_neg hkey, Option.or_none]
    split_ifs
    · rfl
    · rw [Function.update_of_ne hkey]

theorem warmUser_apply (cache : String → Option SegmentEntry) (id : UInt32) (userId : String) :
    warmUser redis cache id userId =
      (cache userId).or (if userId = toString id then warmValue redis userId else none) := by
  rw [warmUser_eq]
  by_cases hid : userId = toString id
  · subst hid
    cases hv : warmValue redis (toString id) <;> simp [getOrInsert_apply]
  · cases hv : warmValue redis (toString id) <;> simp [getOrInsert_apply, hid]

/-- Users in turn; one that is met again keeps its entry. -/
theorem foldl_warmUser_apply (cache : String → Option SegmentEntry) (ids : List UInt32)
    (userId : String) :
    ids.foldl (warmUser redis) cache userId =
      (cache userId).or (if userId ∈ ids.map toString then warmValue redis userId else none) := by
  induction ids generalizing cache with
  | nil => simp
  | cons id ids ih =>
    rw [List.foldl_cons, ih, warmUser_apply, List.map_cons, Option.or_assoc]
    by_cases hid : userId = toString id
    -- met again later, the user gets the same value, which `or` absorbs
    · rw [if_pos hid, if_pos (List.mem_cons.2 (.inl hid))]
      split_ifs
      · rw [Option.or_self]
      · rw [Option.or_none]
    · rw [if_neg hid, Option.none_or]
      simp only [List.mem_cons, hid, false_or]

/-- With a server that answers, the batches make no difference. -/
theorem warmBatches_eq (chunks : List (List UInt32)) (cache : String → Option SegmentEntry) :
    warmBatches (fun keys => some (keys.map redis)) chunks cache =
      (.ok (), chunks.flatten.foldl (warmUser redis) cache) := by
  induction chunks generalizing cache with
  | nil => rfl
  | cons chunk chunks ih =>
    have hbatch : ((chunk.map fun id => segKey (toString id)).zip
        ((chunk.map fun id => segKey (toString id)).map redis)).foldl warmInsert cache =
          chunk.foldl (warmUser redis) cache := by
      rw [List.map_map, List.zip_map', List.foldl_map]
      rfl
    rw [warmBatches]
    simp only [hbatch, ih, List.flatten_cons, List.foldl_append]

/-- From a cold cache, the users of the warm set get what a fetch would have decoded, as
long as it is not an error, and nobody else gets an entry. -/
theorem warmSegmentCache_cold {α : Type} {get : String → Option (Option Bytes)}
    {access : Bytes → Option α} {deserialize : α → Option (List UInt32)} {warmBytes : Bytes}
    {archived : α} {userIds : List UInt32} (hget : get "v1:warm:users" = some (some warmBytes))
    (haccess : access warmBytes = some archived) (hids : deserialize archived = some userIds) :
    ∃ cache, warmSegmentCache get access deserialize (fun keys => some (keys.map redis))
        (fun _ => none) = (.ok (), cache) ∧
      ∀ userId entry, cache userId = some entry ↔
        userId ∈ userIds.map toString ∧ ∃ raw, redis (segKey userId) = some raw ∧
          decodeSegments userId (some raw) = .ok entry.segments ∧ entry.source = some (some raw) := by
  refine ⟨userIds.foldl (warmUser redis) fun _ => none, ?_, fun userId entry => ?_⟩
  · simp only [warmSegmentCache, hget, haccess, hids]
    rw [warmBatches_eq, Lib.flatten_chunks (by decide)]
  · rw [foldl_warmUser_apply, Option.none_or]
    simp only [Option.ite_none_right_eq_some, warmValue, Option.bind_eq_some_iff,
      Option.map_eq_some_iff, warmDecode_eq_some_iff, ← decodeSegments_eq_ok_iff userId]
    refine and_congr_right fun _ => exists_congr fun raw => and_congr_right fun _ => ?_
    constructor
    · rintro ⟨ids, hdec, rfl⟩
      exact ⟨hdec, rfl⟩
    · rintro ⟨hdec, hsource⟩
      exact ⟨entry.segments, hdec, by rw [← hsource]⟩

end WarmUp

end RTB
