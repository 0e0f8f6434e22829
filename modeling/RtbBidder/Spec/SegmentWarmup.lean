import RtbBidder.Lib.Blocks
import RtbBidder.Lib.LittleEndian
import RtbBidder.Spec.BidHandler
import RtbBidder.Spec.SegmentCache

/-! The other two ends of the segment payloads: what `docker/seed-redis.py` stores for a
user, and how `warm_segment_cache` of `bidder-server/src/server/warmup.rs` fills the
segment cache from there. The cache is used by nothing else while it is filled. -/

namespace RTB

/-- `struct.pack(f"<{len(segment_ids)}I", *segment_ids)` of `emit_user` -/
def structPack (segmentIds : List SegmentId) : Bytes := segmentIds.flatMap toLeBytes

/-- `u32::from_le_bytes` -/
def fromLeBytes (b : Bytes) : UInt32 := .ofNat (Lib.leValue b)

/-- What the warm-up makes of a value; one of another length is skipped. -/
def warmDecode (raw : Bytes) : Option (List SegmentId) :=
  if raw.length % 4 ≠ 0 then none else some ((Lib.chunksExact 4 raw).map fromLeBytes)

/-- `str::trim_start_matches`, for at most `fuel` occurrences of a non-empty pattern. -/
def trimStartMatches (pattern : List Char) : ℕ → List Char → List Char
  | 0, cs => cs
  | fuel + 1, cs =>
    if pattern.isPrefixOf cs then trimStartMatches pattern fuel (cs.drop pattern.length) else cs

/-- The cache key that the warm-up reads off a Redis key. -/
def userIdOfKey (key : String) : String :=
  String.ofList ((trimStartMatches "v1:seg:\x7bu:".toList key.length key.toList).rdropWhile
    (· = '\x7d'))

/-- `get_or_fetch` with a fetch that returns the entry. -/
def getOrInsert (cache : String → Option SegmentEntry) (userId : String) (entry : SegmentEntry) :
    String → Option SegmentEntry :=
  if (cache userId).isSome then cache else Function.update cache userId (some entry)

/-- One key of a batch, with the value that the `MGET` returned for it. -/
def warmInsert (cache : String → Option SegmentEntry) (kv : String × Option Bytes) :
    String → Option SegmentEntry :=
  match kv.2 with
  | none => cache
  | some raw =>
    match warmDecode raw with
    | none => cache
    | some ids => getOrInsert cache (userIdOfKey kv.1) ⟨ids, some (some raw)⟩

/-- The batches from here on; `mget` is `none` where the command fails. -/
def warmBatches (mget : List String → Option (List (Option Bytes))) :
    List (List UInt32) → (String → Option SegmentEntry) →
      Except String Unit × (String → Option SegmentEntry)
  | [], cache => (.ok (), cache)
  | chunk :: chunks, cache =>
    let keys := chunk.map fun id => segKey (toString id)
    match mget keys with
    | none => (.error "MGET v1:seg batch failed", cache)
    | some values => warmBatches mget chunks ((keys.zip values).foldl warmInsert cache)

/-- `warm_segment_cache`, with the two steps that read the archived list of users. -/
def warmSegmentCache {α : Type} (get : String → Option (Option Bytes)) (access : Bytes → Option α)
    (deserialize : α → Option (List UInt32)) (mget : List String → Option (List (Option Bytes)))
    (cache : String → Option SegmentEntry) :
    Except String Unit × (String → Option SegmentEntry) :=
  match get "v1:warm:users" with
  | none => (.error "GET v1:warm:users failed", cache)
  | some none => (.ok (), cache)
  | some (some warmBytes) =>
    match access warmBytes with
    | none => (.error "failed to decode v1:warm:users (rkyv)", cache)
    | some archived =>
      match deserialize archived with
      | none => (.error "failed to deserialize v1:warm:users", cache)
      | some userIds => warmBatches mget (Lib.chunks 200 userIds) cache

end RTB
