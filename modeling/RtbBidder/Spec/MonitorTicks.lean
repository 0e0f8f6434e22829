import RtbBidder.Spec.KafkaIncident

/-! The loop of `spawn_monitor` on its own: each tick reads a snapshot of the `u64` totals,
whatever the publisher has done to them. -/

namespace RTB

namespace Monitor

/-- The drop rate between two snapshots; the sum of the differences is in 64 bits. -/
def dropRateU64 (last cur : ℕ × ℕ) : ℚ :=
  let pubDelta := cur.1 - last.1
  let dropDelta := cur.2 - last.2
  let total : ℕ := (pubDelta + dropDelta) % 2 ^ 64
  if total = 0 then 0 else (dropDelta : ℚ) / total

/-- One turn of the loop that reads `snap`. -/
def tickAt (cfg : MonitorConfig) (s : KafkaIncidentState × Monitor) (snap : ℕ × ℕ) :
    KafkaIncidentState × Monitor :=
  let st := { s.1 with publishedTotal := snap.1, droppedTotal := snap.2 }
  let m := { s.2 with last := snap }
  if st.autoFlip = false then (st, m)
  else flipPolicy cfg st (countTick cfg (dropRateU64 s.2.last snap) m)

/-- The state and the monitor as `spawn_monitor` finds the totals. -/
def spawn (base : KafkaDropPolicy) (first : ℕ × ℕ) : KafkaIncidentState × Monitor :=
  ({ KafkaIncidentState.new base with publishedTotal := first.1, droppedTotal := first.2 },
    ⟨first, 0, 0, false⟩)

def ticks (cfg : MonitorConfig) (base : KafkaDropPolicy) (first : ℕ × ℕ) (snaps : List (ℕ × ℕ)) :
    KafkaIncidentState × Monitor :=
  snaps.foldl (tickAt cfg) (spawn base first)

end Monitor

end RTB
