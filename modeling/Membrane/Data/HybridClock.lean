import Mathlib.Algebra.Order.Ring.Int
import Mathlib.Algebra.Order.Ring.Nat
import Membrane.Foundation.Causality

/-!
# Hybrid logical clocks

A clock value is a physical time in milliseconds and a counter, and is sent as one integer
with the counter in its low bits.  The wall clock is read at every event of a process but the
receive of a message, and may go backwards.
-/

namespace Membrane
namespace Data

open Foundation

def physicalShift : Nat := 16

def logicalMax : Nat := (1 <<< 16) - 1

def physicalMax : Nat := (1 <<< 48) - 1

structure HLC where
  physicalMs : Nat
  logical : Nat
  deriving DecidableEq

namespace HLC

def unpack (value : Nat) : HLC :=
  { physicalMs := (value >>> physicalShift) &&& physicalMax
    logical := value &&& logicalMax }

def pack (clock : HLC) : Nat :=
  (clock.physicalMs <<< physicalShift) ||| (clock.logical &&& logicalMax)

/-- One step of the counter, with a carry into the physical part. -/
def bump (clock : HLC) : HLC :=
  if clock.logical < logicalMax then { clock with logical := clock.logical + 1 }
  else { physicalMs := clock.physicalMs + 1, logical := 0 }

def tick (previous : HLC) (nowMs : Int) : HLC :=
  if previous.physicalMs < nowMs then { physicalMs := nowMs.toNat, logical := 0 }
  else previous.bump

def merge (mine other : HLC) : HLC :=
  if mine.physicalMs < other.physicalMs then
    { physicalMs := other.physicalMs, logical := 0 }
  else if other.physicalMs < mine.physicalMs then mine.bump
  else if logicalMax < max mine.logical other.logical + 1 then
    { physicalMs := mine.physicalMs + 1, logical := 0 }
  else { physicalMs := mine.physicalMs, logical := max mine.logical other.logical + 1 }

/-- The clock of a process.  A message carries the packed value of its event. -/
def clockRules : ClockRules Int HLC Nat where
  tick := tick
  merge mine observed := mine.merge (unpack observed)
  stamp := pack

/-!
# The packed form
-/

theorem unpack_eq (value : Nat) :
    unpack value =
      { physicalMs := value / 2 ^ 16 % 2 ^ 48, logical := value % 2 ^ 16 } := by
  have hphysical : (value >>> 16) &&& (2 ^ 48 - 1) = value / 2 ^ 16 % 2 ^ 48 := by
    rw [Nat.and_two_pow_sub_one_eq_mod, Nat.shiftRight_eq_div_pow]
  have hlogical : value &&& (2 ^ 16 - 1) = value % 2 ^ 16 :=
    Nat.and_two_pow_sub_one_eq_mod value 16
  show HLC.mk ((value >>> 16) &&& (2 ^ 48 - 1)) (value &&& (2 ^ 16 - 1)) = _
  rw [hphysical, hlogical]

theorem pack_eq (clock : HLC) :
    pack clock = clock.physicalMs * 2 ^ 16 + clock.logical % 2 ^ 16 := by
  show (clock.physicalMs <<< 16) ||| (clock.logical &&& (2 ^ 16 - 1)) = _
  rw [Nat.and_two_pow_sub_one_eq_mod,
    ← Nat.shiftLeft_add_eq_or_of_lt (Nat.mod_lt _ (Nat.two_pow_pos 16)), Nat.shiftLeft_eq]

theorem logicalMax_eq : logicalMax = 65535 := by decide

theorem physicalMax_eq : physicalMax = 281474976710655 := by decide

theorem unpack_pack {clock : HLC} (hphysical : clock.physicalMs < physicalMax)
    (hlogical : clock.logical ≤ logicalMax) : unpack (pack clock) = clock := by
  rw [physicalMax_eq] at hphysical
  rw [logicalMax_eq] at hlogical
  rw [unpack_eq, pack_eq]
  have hfirst : (clock.physicalMs * 2 ^ 16 + clock.logical % 2 ^ 16) / 2 ^ 16 % 2 ^ 48 =
      clock.physicalMs := by omega
  have hsecond : (clock.physicalMs * 2 ^ 16 + clock.logical % 2 ^ 16) % 2 ^ 16 =
      clock.logical := by omega
  rw [hfirst, hsecond]

/-!
# Moving a clock
-/

theorem pack_lt_bump (clock : HLC) : pack clock < pack clock.bump := by
  rw [pack_eq, pack_eq]
  unfold bump
  rw [logicalMax_eq]
  split_ifs with hroom
  · show clock.physicalMs * 2 ^ 16 + clock.logical % 2 ^ 16 <
      clock.physicalMs * 2 ^ 16 + (clock.logical + 1) % 2 ^ 16
    omega
  · show clock.physicalMs * 2 ^ 16 + clock.logical % 2 ^ 16 <
      (clock.physicalMs + 1) * 2 ^ 16 + 0 % 2 ^ 16
    omega

theorem pack_lt_of_physical {a b : HLC} (h : a.physicalMs < b.physicalMs) :
    pack a < pack b := by
  rw [pack_eq, pack_eq]
  omega

theorem pack_lt_tick (previous : HLC) (nowMs : Int) :
    pack previous < pack (previous.tick nowMs) := by
  unfold tick
  split_ifs with hlater
  · apply pack_lt_of_physical
    show previous.physicalMs < nowMs.toNat
    omega
  · exact pack_lt_bump previous

theorem pack_lt_merge (mine other : HLC) : pack mine < pack (mine.merge other) := by
  unfold merge
  split_ifs with hbehind hahead hcarry
  · exact pack_lt_of_physical hbehind
  · exact pack_lt_bump mine
  · exact pack_lt_of_physical (Nat.lt_succ_self mine.physicalMs)
  · rw [logicalMax_eq] at hcarry
    rw [pack_eq, pack_eq]
    show mine.physicalMs * 2 ^ 16 + mine.logical % 2 ^ 16 <
      mine.physicalMs * 2 ^ 16 + (max mine.logical other.logical + 1) % 2 ^ 16
    omega

theorem clockRules_forward : Clocks.Forward clockRules where
  tick := pack_lt_tick
  merge mine observed := pack_lt_merge mine (unpack observed)

/-- A merge moves past the other clock only if that one is not ahead in physical time. -/
theorem other_lt_merge_iff (mine other : HLC) (hlogical : other.logical ≤ logicalMax) :
    pack other < pack (mine.merge other) <-> other.physicalMs ≤ mine.physicalMs := by
  constructor
  · intro h
    by_contra hahead
    have hmerged : mine.merge other = { physicalMs := other.physicalMs, logical := 0 } := by
      unfold merge
      rw [if_pos (not_le.mp hahead)]
    rw [hmerged, pack_eq, pack_eq] at h
    simp only at h
    omega
  · intro h
    rcases Nat.lt_or_eq_of_le h with hlt | heq
    · exact lt_trans (pack_lt_of_physical hlt) (pack_lt_merge mine other)
    · unfold merge
      rw [if_neg (by omega), if_neg (by omega)]
      rw [logicalMax_eq] at hlogical ⊢
      split_ifs with hcarry
      · apply pack_lt_of_physical
        show other.physicalMs < mine.physicalMs + 1
        omega
      · rw [pack_eq, pack_eq, heq]
        show mine.physicalMs * 2 ^ 16 + other.logical % 2 ^ 16 <
          mine.physicalMs * 2 ^ 16 + (max mine.logical other.logical + 1) % 2 ^ 16
        omega

/-!
# Executions
-/

theorem bump_logical_le (clock : HLC) : clock.bump.logical ≤ logicalMax := by
  unfold bump
  split_ifs with hroom
  · exact hroom
  · exact Nat.zero_le _

section Executions

variable {iota : Type}

theorem advance_logical_le (s : Clocks iota HLC) (e : ProcessEvent iota Int)
    (hsent : forall source, e.action = .receive source -> exists sender,
      s.produced[source]? = some sender) :
    (s.advance clockRules e).logical ≤ logicalMax := by
  have htick : forall (c : HLC) (now : Int), (c.tick now).logical ≤ logicalMax := by
    intro c now
    unfold tick
    split_ifs
    · exact Nat.zero_le _
    · exact bump_logical_le c
  unfold Clocks.advance
  cases haction : e.action with
  | internal input | send input => exact htick _ input
  | receive source =>
    rcases hsent source haction with ⟨sender, hsender⟩
    simp only [hsender]
    show (merge _ _).logical ≤ logicalMax
    unfold merge
    split_ifs with hbehind hahead hcarry
    · exact Nat.zero_le _
    · exact bump_logical_le _
    · exact Nat.zero_le _
    · exact not_lt.mp hcarry

def NotAhead (s : Clocks iota HLC) (e : ProcessEvent iota Int) : Prop :=
  forall source sender, e.action = .receive source -> s.produced[source]? = some sender ->
    sender.physicalMs ≤ (s.clock e.process).physicalMs

variable [DecidableEq iota]

def produced (seed : iota -> HLC) (ex : Execution iota Int) : List HLC :=
  (run (Clocks.step clockRules) (Clocks.start seed) ex.events).produced

/-- Packed values agree with the order in which the events happened, and can be unpacked. -/
structure ClockCondition (seed : iota -> HLC) (ex : Execution iota Int) : Prop where
  increasing : forall i j, ex.HappenedBefore i j -> forall a b,
    (produced seed ex)[i]? = some a -> (produced seed ex)[j]? = some b -> pack a < pack b
  unpacked : forall a, a ∈ produced seed ex -> unpack (pack a) = a

theorem produced_logical_le (seed : iota -> HLC) (ex : Execution iota Int) {a : HLC}
    (ha : a ∈ produced seed ex) : a.logical ≤ logicalMax := by
  rcases List.mem_iff_getElem?.mp ha with ⟨j, hj⟩
  rw [produced, Clocks.produced_getElem?, Option.map_eq_some_iff] at hj
  rcases hj with ⟨e, he, hvalue⟩
  rw [← hvalue]
  apply advance_logical_le
  intro source hreceive
  rcases Clocks.exists_sender clockRules seed ex he hreceive with ⟨sender, hsender, _⟩
  exact ⟨sender, hsender⟩

/-- A receive moves past its message exactly when the message is not ahead. -/
theorem overtakes_iff_notAhead {seed : iota -> HLC} {ex : Execution iota Int}
    (hbounded : forall a, a ∈ produced seed ex -> a.physicalMs < physicalMax) {j : Nat}
    {e : ProcessEvent iota Int} (he : ex.events[j]? = some e) :
    Clocks.Overtakes clockRules
        (run (Clocks.step clockRules) (Clocks.start seed) (ex.events.take j)) e <->
      NotAhead (run (Clocks.step clockRules) (Clocks.start seed) (ex.events.take j)) e := by
  apply forall_congr'
  intro source
  apply forall_congr'
  intro sender
  apply forall_congr'
  intro hreceive
  apply forall_congr'
  intro hsender
  rcases Clocks.exists_sender clockRules seed ex he hreceive with ⟨other, hother, hproduced⟩
  have hsame : sender = other := Option.some.inj (hsender.symm.trans hother)
  have hmem : sender ∈ produced seed ex := by
    rw [hsame]
    exact List.mem_of_getElem? hproduced
  have hlogical := produced_logical_le seed ex hmem
  have hadvance : Clocks.advance clockRules
      (run (Clocks.step clockRules) (Clocks.start seed) (ex.events.take j)) e =
        ((run (Clocks.step clockRules) (Clocks.start seed) (ex.events.take j)).clock
          e.process).merge sender := by
    unfold Clocks.advance
    simp only [hreceive, hsender]
    show merge _ (unpack (pack sender)) = _
    rw [unpack_pack (hbounded sender hmem) hlogical]
  rw [hadvance]
  exact other_lt_merge_iff _ sender hlogical

/-- The clock condition holds in exactly those executions in which no message is ahead of the
process that receives it. -/
theorem clockCondition_iff {seed : iota -> HLC} {ex : Execution iota Int}
    (hbounded : forall a, a ∈ produced seed ex -> a.physicalMs < physicalMax) :
    ClockCondition seed ex <->
      Along (Clocks.step clockRules) NotAhead (Clocks.start seed) ex.events := by
  have hunpacked : forall a, a ∈ produced seed ex -> unpack (pack a) = a := by
    intro a ha
    exact unpack_pack (hbounded a ha) (produced_logical_le seed ex ha)
  have halong : Along (Clocks.step clockRules) (Clocks.Overtakes clockRules)
      (Clocks.start seed) ex.events <->
        Along (Clocks.step clockRules) NotAhead (Clocks.start seed) ex.events := by
    rw [along_iff_getElem?, along_iff_getElem?]
    apply forall_congr'
    intro j
    apply forall_congr'
    intro e
    apply forall_congr'
    intro he
    exact overtakes_iff_notAhead hbounded he
  rw [← halong, ← Clocks.ordered_iff clockRules_forward]
  exact ⟨fun h => h.increasing, fun h => ⟨h, hunpacked⟩⟩

/-!
# Drift
-/

section Drift

variable {limit : Nat} {mine other : HLC} {nowMs : Int}

def UpTo (limit : Nat) (clock : HLC) : Prop :=
  clock.logical ≤ logicalMax ∧ pack clock ≤ limit

theorem UpTo.succ (h : UpTo limit mine) : UpTo (limit + 1) mine :=
  ⟨h.left, Nat.le_succ_of_le h.right⟩

theorem upTo_iff : UpTo limit mine <->
    mine.logical ≤ 65535 ∧ mine.physicalMs * 2 ^ 16 + mine.logical ≤ limit := by
  unfold UpTo
  rw [pack_eq, logicalMax_eq]
  omega

theorem UpTo.bump (h : UpTo limit mine) : UpTo (limit + 1) mine.bump := by
  rw [upTo_iff] at h ⊢
  unfold HLC.bump
  rw [logicalMax_eq]
  split_ifs <;> simp only <;> omega

theorem UpTo.tick (h : UpTo limit mine) (hnow : nowMs * 2 ^ 16 ≤ limit) :
    UpTo (limit + 1) (mine.tick nowMs) := by
  unfold HLC.tick
  split_ifs with hlater
  · rw [upTo_iff]
    simp only
    omega
  · exact h.bump

theorem UpTo.merge (h : UpTo limit mine) (hother : UpTo limit other) :
    UpTo (limit + 1) (mine.merge other) := by
  have hbump := h.bump
  rw [upTo_iff] at h hother
  unfold HLC.merge
  rw [logicalMax_eq]
  split_ifs with hbehind hahead hcarry
  · rw [upTo_iff]
    simp only
    omega
  · exact hbump
  · rw [upTo_iff]
    simp only
    omega
  · rw [upTo_iff]
    simp only
    omega

theorem upTo_unpack {value : Nat} (h : value ≤ limit) : UpTo limit (unpack value) := by
  rw [upTo_iff, unpack_eq]
  simp only
  omega

def ReadsUpTo (limit : Nat) (e : ProcessEvent iota Int) : Prop :=
  forall nowMs, e.action = .internal nowMs ∨ e.action = .send nowMs -> nowMs * 2 ^ 16 ≤ limit

structure Drift (limit : Nat) (s : Clocks iota HLC) : Prop where
  clock : forall process, UpTo (limit + s.produced.length) (s.clock process)
  produced : forall a, a ∈ s.produced -> UpTo (limit + s.produced.length) a

theorem Drift.step {s : Clocks iota HLC} (h : Drift limit s) {e : ProcessEvent iota Int}
    (he : ReadsUpTo limit e) : Drift limit (s.step clockRules e) := by
  have hvalue : UpTo (limit + s.produced.length + 1) (s.advance clockRules e) := by
    have hclock := h.clock e.process
    unfold Clocks.advance
    cases haction : e.action with
    | internal nowMs => exact hclock.tick ((he nowMs (Or.inl haction)).trans (by omega))
    | send nowMs => exact hclock.tick ((he nowMs (Or.inr haction)).trans (by omega))
    | receive source =>
      simp only
      cases hsender : s.produced[source]? with
      | none => exact hclock.succ
      | some sender =>
        exact hclock.merge
          (upTo_unpack (h.produced sender (List.mem_of_getElem? hsender)).right)
  have hlength : (s.step clockRules e).produced.length = s.produced.length + 1 :=
    List.length_append
  constructor
  · rw [hlength]
    exact (Function.forall_update_iff s.clock (fun _ => UpTo _)).mpr
      ⟨hvalue, fun process _ => (h.clock process).succ⟩
  · rw [hlength]
    intro a ha
    rcases List.mem_append.mp ha with hold | hnew
    · exact (h.produced a hold).succ
    · rw [List.mem_singleton.mp hnew]
      exact hvalue

theorem Drift.run {events : List (ProcessEvent iota Int)} {s : Clocks iota HLC}
    (h : Drift limit s) (hwall : forall e, e ∈ events -> ReadsUpTo limit e) :
    Drift limit (Foundation.run (Clocks.step clockRules) s events) := by
  induction events generalizing s with
  | nil => exact h
  | cons e rest ih =>
    exact ih (h.step (hwall e List.mem_cons_self))
      (fun f hf => hwall f (List.mem_cons_of_mem e hf))

/-- An execution of any processes produces no clock value that is ahead of all seeds and wall
clocks by more than the number of its events. -/
theorem produced_drift_le {seed : iota -> HLC} {ex : Execution iota Int}
    (hseed : forall process, UpTo limit (seed process))
    (hwall : forall e, e ∈ ex.events -> ReadsUpTo limit e) {a : HLC}
    (ha : a ∈ HLC.produced seed ex) : pack a ≤ limit + ex.events.length := by
  have hstart : Drift limit (Clocks.start seed) :=
    ⟨hseed, fun _ hnone => absurd hnone List.not_mem_nil⟩
  have hdrift := ((hstart.run hwall).produced a ha).right
  rwa [Clocks.length_produced] at hdrift

end Drift

end Executions

def oneMessage : Execution Bool Int where
  events := [{ process := true, action := .send 5 }, { process := false, action := .receive 0 }]
  sent := by
    intro j source e he hreceive
    match j with
    | 0 =>
      cases he
      cases hreceive
    | 1 =>
      cases he
      cases hreceive
      exact ⟨Nat.zero_lt_one, _, 5, rfl, rfl⟩
    | j + 2 => cases he

/-- The receiver's clock stands at 9. -/
theorem oneMessage_ordered : ClockCondition (fun process => HLC.mk (if process then 0 else 9) 0)
    oneMessage := by
  refine (clockCondition_iff (by decide)).mpr ?_
  refine ⟨?_, ?_, trivial⟩
  · intro source sender hreceive
    cases hreceive
  · intro source sender hreceive hsender
    cases hreceive
    cases hsender
    decide

/-- The receiver's clock stands at 0, and the receive has the stamp of the send. -/
theorem oneMessage_not_ordered : ¬ ClockCondition (fun _ => HLC.mk 0 0) oneMessage := by
  intro h
  have hbefore : oneMessage.HappenedBefore 0 1 :=
    Relation.TransGen.single ⟨Nat.zero_lt_one, _, _, rfl, rfl, Or.inr rfl⟩
  have hlt := h.increasing 0 1 hbefore ⟨5, 0⟩ ⟨5, 0⟩ (by decide) (by decide)
  exact lt_irrefl _ hlt

theorem oneMessage_drift_le :
    HLC.mk 5 0 ∈ produced (fun _ => HLC.mk 0 0) oneMessage ∧
      pack (HLC.mk 5 0) ≤ 5 * 2 ^ 16 + 2 := by
  have hproduced : HLC.mk 5 0 ∈ produced (fun _ => HLC.mk 0 0) oneMessage := by decide
  refine ⟨hproduced, produced_drift_le (fun _ => ⟨by decide, by decide⟩) ?_ hproduced⟩
  intro e he nowMs hreads
  rcases List.mem_pair.mp he with rfl | rfl <;> rcases hreads with hreads | hreads <;>
    cases hreads
  decide

end HLC

end Data
end Membrane
