import PaaRuntime.Granted
import PaaRuntime.Lib.Civil
import PaaRuntime.TimeOrder

/-!
# The clock of the service

`new_created_at` writes an instant with a fixed number of digits, so that the queries, which compare
texts, compare instants. Where only the service writes, and whatever its clients' clocks read, the
lookups of a triple find what is latest in time (`System.service_time_order`); only an import can bring
in texts of which that is not so.
-/

namespace PaaRuntime

/-- What `new_created_at` can return. -/
def IsReading (createdAt : String) : Prop := ∃ t : Civil, createdAt = t.text

/-- Clocks are read by `new_created_at`; nothing else is granted. -/
def Grants.reading : Grants := ⟨fun _ => True, IsReading, fun _ => True⟩

theorem Grants.reading_all (directory : Directory) : directory.All reading.OfDeclaration :=
  fun _ _ _ _ _ _ => trivial

theorem instant_text (t : Civil) : instant t.text = t.instant := by
  rw [instant, t.instant?_text]
  rfl

/-- Readings are in the order of their instants. -/
theorem IsReading.lt_iff {a b : String} (ha : IsReading a) (hb : IsReading b) :
    a < b ↔ instant a < instant b := by
  obtain ⟨s, rfl⟩ := ha
  obtain ⟨t, rfl⟩ := hb
  rw [instant_text, instant_text, WithBot.coe_lt_coe]
  exact Civil.text_lt_iff

/-- Two readings are one text if they are one instant. -/
theorem IsReading.eq_iff {a b : String} (ha : IsReading a) (hb : IsReading b) :
    a = b ↔ instant a = instant b := by
  constructor
  · rintro rfl
    rfl
  · intro h
    have hnlt : ¬a < b := fun hlt => ((ha.lt_iff hb).1 hlt).ne h
    have hngt : ¬b < a := fun hgt => ((hb.lt_iff ha).1 hgt).ne h.symm
    exact le_antisymm (not_lt.1 hngt) (not_lt.1 hnlt)

/-- Points whose times are readings are ordered as in time. -/
theorem IsReading.stamp_lt_iff {a b id id' : String} (ha : IsReading a) (hb : IsReading b) :
    (toLex (a, id) : Stamp) < toLex (b, id') ↔ moment a id < moment b id' := by
  rw [Prod.Lex.toLex_lt_toLex, moment, moment, Prod.Lex.toLex_lt_toLex]
  exact or_congr (ha.lt_iff hb) (and_congr (ha.eq_iff hb) Iff.rfl)

namespace System

variable [Hashlib] {config : RuntimeConfig} {W : System} {directory : Directory}

/-- **Where only the service writes, store order is time order.** In every state that its calls reach,
with clocks that are read by `new_created_at` but may stand still or go back, the lookups of a triple
find what is latest in time, at any points that are readings. -/
theorem service_time_order (h : Run (next config) (Grant .reading) (init directory) W) (Y : Triple)
    {points : Set (String × String)} (hpoints : ∀ p ∈ points, IsReading p.1) :
    InTimeOrder W.shared.table Y (points ∪ ownPoints Y W.shared.table) := by
  have hrows := rows_granted (Grants.reading_all directory) h
  have hids : (W.shared.table.map (·.id)).Nodup :=
    List.pairwise_map.2 (ids_of_grown (fits_reach h))
  have hown : ∀ e ∈ positionChanges Y W.shared.table, IsReading e.createdAt := fun e he =>
    (hrows e (List.mem_of_mem_filter he)).createdAt
  refine (inTimeOrder_iff hids Y _ Set.subset_union_right).2 fun e he p hp => ?_
  have hp' : IsReading p.1 := by
    rcases hp with hp | ⟨c, hc, rfl⟩
    · exact hpoints p hp
    · exact hown c hc
  exact (hown e he).stamp_lt_iff hp'

end System

/-! ## Clients whose clocks read the time -/

namespace Scenario

/-- Ten o'clock, some seconds and microseconds on. -/
def civil (second microsecond : ℕ) : Civil where
  year := 2026
  month := 3
  day := 1
  hour := 10
  minute := 0
  second := second % 60
  microsecond := microsecond % 1000000
  year_range := by decide
  isDay := by decide
  hour_lt := by decide
  minute_lt := by decide
  second_lt := Nat.mod_lt _ (by decide)
  microsecond_lt := Nat.mod_lt _ (by decide)

/-- Surroundings in which nothing fails, and the clock reads the time. -/
def clockedIo (n : ℕ) : Io := { io n with clock := fun k => (civil n k).text }

/-- Client `i` calls, and goes on for a number of parts. -/
def clockedCalls (i : ℕ) (call : Call) (n parts : ℕ) : List Action :=
  .start i call :: (List.range parts).map fun k =>
    .advance i (clockedIo (n + k)) (.completes "tmp")

/-- A promotion is proposed and approved, and then demoted. -/
def clockedCycle : List Action :=
  clockedCalls 0 (.propose ⟨"t", none, "hotl", "file", none, none⟩) 0 11 ++
    (clockedCalls 1 (.approve ⟨text 9 0, "fine", none⟩) 11 2 ++
      clockedCalls 2 (.demote ⟨"t", none, "incident", none, []⟩) 13 9)

theorem mem_clockedCalls {i n parts : ℕ} {call : Call} {a : Action}
    (ha : a ∈ clockedCalls i call n parts) :
    a = .start i call ∨ ∃ k, a = .advance i (clockedIo k) (.completes "tmp") := by
  rcases List.mem_cons.1 ha with rfl | ha
  · exact .inl rfl
  · obtain ⟨k, -, rfl⟩ := List.mem_map.1 ha
    exact .inr ⟨n + k, rfl⟩

theorem grant_clockedCycle : ∀ a ∈ clockedCycle, ∀ W, System.Grant .reading W a := by
  intro a ha W
  have hio : ∀ n, Grants.reading.OfIo (clockedIo n) := fun n =>
    ⟨fun k => ⟨civil n k, rfl⟩, fun _ => trivial, fun _ => trivial, fun _ _ => trivial⟩
  simp only [clockedCycle, List.mem_append] at ha
  rcases ha with ha | ha | ha <;> rcases mem_clockedCalls ha with rfl | ⟨k, rfl⟩
  all_goals first | trivial | exact hio k

end Scenario

open Scenario in
theorem System.service_time_order_cycle :
    (positionChanges ⟨"t", 1, none⟩ (after clockedCycle).shared.table).length = 2 ∧
      InTimeOrder (after clockedCycle).shared.table ⟨"t", 1, none⟩
        ((fun p => p.1 = (civil 0 0).text) ∪
          ownPoints ⟨"t", 1, none⟩ (after clockedCycle).shared.table) := by
  refine ⟨by decide +kernel, ?_⟩
  exact @service_time_order hashing config _ _ (Run.foldl _ _ grant_clockedCycle) _ _
    fun p hp => ⟨civil 0 0, hp⟩

end PaaRuntime
