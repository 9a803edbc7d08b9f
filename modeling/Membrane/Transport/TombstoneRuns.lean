import Membrane.Transport.ClusterOps

/-!
# Runs of a tombstone table

Records of deletions arrive directly and in gossip messages, in any order and more than
once.  Lookups and sweeps drop what has expired.  At any time that is not before these, the
table knows exactly the deletions whose deadlines are still to come, as long as every
deadline is a number.
-/

namespace Membrane
namespace Transport

open Foundation Store

inductive TombstoneCall where
  | record (contentHash : String) (untilTime : Deadline) (nodeIds : Finset String)
  | gossip (message : Option GossipState)
  | lookup (contentHash : String) (now : ℚ)
  | sweep (now : ℚ)

namespace TombstoneCall

def delivers : TombstoneCall -> List (String × Deadline)
  | record contentHash untilTime _ => [(contentHash, untilTime)]
  | gossip (some message) => message.fragmentTombstones.entries
  | gossip none => []
  | lookup _ _ => []
  | sweep _ => []

def NotAfter (now : ℚ) : TombstoneCall -> Prop
  | lookup _ time => time ≤ now
  | sweep time => time ≤ now
  | _ => True

instance (now : ℚ) (call : TombstoneCall) : Decidable (call.NotAfter now) :=
  match call with
  | lookup _ time | sweep time => inferInstanceAs (Decidable (time ≤ now))
  | record _ _ _ | gossip _ => inferInstanceAs (Decidable True)

def deliveries (calls : List TombstoneCall) : List (String × Deadline) := calls.flatMap delivers

end TombstoneCall

end Transport

namespace Store
namespace TombstoneTable

open Foundation Transport

def handle (t : TombstoneTable) : TombstoneCall -> TombstoneTable
  | .record contentHash untilTime nodeIds => t.record contentHash untilTime nodeIds
  | .gossip message => handleGossip t message
  | .lookup contentHash now => (t.get contentHash now).2
  | .sweep now => (t.sweepExpired now).2

structure Reflects (now : ℚ) (delivered : List (String × Deadline))
    (t : TombstoneTable) : Prop where
  sound : forall contentHash record, t.tombstones.get? contentHash = some record ->
    (contentHash, record.untilTime) ∈ delivered
  kept : forall contentHash deadline, (contentHash, deadline) ∈ delivered ->
    now < deadline -> t.Covers contentHash deadline

namespace Reflects

variable {now : ℚ} {delivered : List (String × Deadline)} {t : TombstoneTable}

theorem create (now : ℚ) : Reflects now [] create where
  sound contentHash record h := by cases h
  kept contentHash deadline h := by cases h

section

variable (h : Reflects now delivered t)

include h

theorem isActive_iff {contentHash : String}
    (hnumbers : ¬ (contentHash, Deadline.nan) ∈ delivered) :
    t.isActive contentHash now = true <->
      exists deadline, (contentHash, deadline) ∈ delivered ∧ now < deadline := by
  constructor
  · intro hactive
    rcases TombstoneTable.isActive_iff.mp hactive with ⟨record, hget, hlater⟩
    have hmem := h.sound contentHash record hget
    have hnumber : record.untilTime ≠ .nan := fun hnan => hnumbers (hnan ▸ hmem)
    exact ⟨record.untilTime, hmem, (Deadline.not_le_iff hnumber).mp hlater⟩
  · intro hdelivered
    rcases hdelivered with ⟨deadline, hmem, hlater⟩
    exact (h.kept contentHash deadline hmem hlater).isActive hlater

theorem record (contentHash : String) (untilTime : Deadline) (nodeIds : Finset String) :
    Reflects now (delivered ++ [(contentHash, untilTime)])
      (t.record contentHash untilTime nodeIds) := by
  refine { sound := ?_, kept := ?_ }
  · intro other found hget
    rw [List.mem_append, List.mem_singleton]
    unfold TombstoneTable.record at hget
    rw [Dict.get?_set] at hget
    split at hget
    · next hother =>
        cases hexisting : t.tombstones.get? contentHash with
        | none =>
          rw [hexisting] at hget
          cases hget
          right
          rw [hother]
        | some existing =>
          rw [hexisting] at hget
          cases hget
          rw [hother]
          rcases Deadline.max_cases existing.untilTime untilTime with hmax | hmax
          · left
            show (contentHash, existing.untilTime.max untilTime) ∈ delivered
            rw [hmax]
            exact h.sound contentHash existing hexisting
          · right
            show (contentHash, existing.untilTime.max untilTime) = _
            rw [hmax]
    · exact Or.inl (h.sound other found hget)
  · intro other deadline hmem hlater
    rcases List.mem_append.mp hmem with hbefore | hnew
    · exact (h.kept other deadline hbefore hlater).record contentHash untilTime nodeIds
    · cases List.mem_singleton.mp hnew
      exact record_covers contentHash untilTime nodeIds

theorem foldl_record (nodeId : String) (entries : List (String × Deadline)) :
    Reflects now (delivered ++ entries)
      (entries.foldl (fun t entry => t.record entry.1 entry.2 {nodeId}) t) := by
  induction entries generalizing t delivered with
  | nil =>
    rw [List.append_nil]
    exact h
  | cons entry rest ih =>
    have hnext := ih (h.record entry.1 entry.2 {nodeId})
    rw [List.append_assoc] at hnext
    exact hnext

theorem drop {kept : Dict String Tombstone}
    (hsub : forall contentHash record, kept.get? contentHash = some record ->
      t.tombstones.get? contentHash = some record)
    (hlive : forall contentHash record, t.tombstones.get? contentHash = some record ->
      ¬ record.untilTime ≤ now -> kept.get? contentHash = some record) :
    Reflects now delivered { tombstones := kept } := by
  refine { sound := ?_, kept := ?_ }
  · intro contentHash record hget
    exact h.sound contentHash record (hsub contentHash record hget)
  · intro contentHash deadline hmem hlater
    rcases h.kept contentHash deadline hmem hlater with ⟨record, hget, hlast⟩
    refine ⟨record, hlive contentHash record hget (fun hexpired => ?_), hlast⟩
    exact hlast (Deadline.lt_of_compares (Or.inr hexpired) hlater)

theorem lookup (contentHash : String) {time : ℚ}
    (htime : time ≤ now) : Reflects now delivered (t.get contentHash time).2 := by
  unfold TombstoneTable.get
  cases hget : t.tombstones.get? contentHash with
  | none => exact h
  | some found =>
    simp only
    split
    · next hexpired =>
        apply h.drop
        · intro other record hother
          rw [Dict.get?_erase] at hother
          split at hother
          · cases hother
          · exact hother
        · intro other record hother hlive
          rw [Dict.get?_erase, if_neg]
          · exact hother
          · intro hsame
            rw [hsame, hget] at hother
            cases hother
            exact absurd (Deadline.le_ofTime_mono hexpired htime) hlive
    · exact h

theorem sweep {time : ℚ} (htime : time ≤ now) :
    Reflects now delivered (t.sweepExpired time).2 := by
  apply h.drop
  · intro contentHash record hget
    exact ((Dict.get?_filter_eq_some_iff _ _ _ _).mp hget).left
  · intro contentHash record hget hlive
    apply (Dict.get?_filter_eq_some_iff _ _ _ _).mpr
    exact ⟨hget, decide_eq_true
      (fun hexpired => hlive (Deadline.le_ofTime_mono hexpired htime))⟩

theorem handle (call : TombstoneCall) (hcall : call.NotAfter now) :
    Reflects now (delivered ++ call.delivers) (t.handle call) := by
  cases call with
  | record contentHash untilTime nodeIds => exact h.record contentHash untilTime nodeIds
  | gossip message =>
    cases message with
    | none =>
      show Reflects now (delivered ++ []) t
      rw [List.append_nil]
      exact h
    | some incoming =>
      exact h.foldl_record incoming.nodeId incoming.fragmentTombstones.entries
  | lookup contentHash time =>
    show Reflects now (delivered ++ []) _
    rw [List.append_nil]
    exact h.lookup contentHash hcall
  | sweep time =>
    show Reflects now (delivered ++ []) _
    rw [List.append_nil]
    exact h.sweep hcall

theorem run (calls : List TombstoneCall)
    (hcalls : forall call, call ∈ calls -> call.NotAfter now) :
    Reflects now (delivered ++ TombstoneCall.deliveries calls)
      (Foundation.run TombstoneTable.handle t calls) := by
  induction calls generalizing t delivered with
  | nil =>
    show Reflects now (delivered ++ []) t
    rw [List.append_nil]
    exact h
  | cons call rest ih =>
    have hnext := ih (h.handle call (hcalls call List.mem_cons_self))
      (fun other hother => hcalls other (List.mem_cons_of_mem call hother))
    rw [List.append_assoc] at hnext
    exact hnext

end

end Reflects

theorem run_isActive_iff_and_agree (calls : List TombstoneCall) (now : ℚ)
    (hcalls : forall call, call ∈ calls -> call.NotAfter now) (contentHash : String)
    (hnumbers : ¬ (contentHash, Deadline.nan) ∈ TombstoneCall.deliveries calls) :
    ((run handle create calls).isActive contentHash now = true <->
      exists deadline, (contentHash, deadline) ∈ TombstoneCall.deliveries calls ∧
        now < deadline) ∧
      forall others : List TombstoneCall,
        (forall call, call ∈ others -> call.NotAfter now) ->
        (forall record, record ∈ TombstoneCall.deliveries calls <->
          record ∈ TombstoneCall.deliveries others) ->
        (run handle create calls).isActive contentHash now =
          (run handle create others).isActive contentHash now := by
  have hfirst := (Reflects.create now).run calls hcalls
  rw [List.nil_append] at hfirst
  refine ⟨hfirst.isActive_iff hnumbers, ?_⟩
  intro others hothers hsame
  have hsecond := (Reflects.create now).run others hothers
  rw [List.nil_append] at hsecond
  have hnumbersToo : ¬ (contentHash, Deadline.nan) ∈ TombstoneCall.deliveries others :=
    fun hnan => hnumbers ((hsame _).mpr hnan)
  rw [Bool.eq_iff_iff, hfirst.isActive_iff hnumbers, hsecond.isActive_iff hnumbersToo]
  simp only [hsame]

def shortFirst : List TombstoneCall :=
  [.record "h" (5 : ℚ) {"a"}, .sweep 6, .record "h" (8 : ℚ) {"b"}]

def longFirst : List TombstoneCall :=
  [.record "h" (8 : ℚ) {"b"}, .lookup "h" 6, .record "h" (5 : ℚ) {"a"}]

theorem shortFirst_agrees_longFirst :
    (run handle create shortFirst).isActive "h" 7 = true ∧
      (run handle create shortFirst).isActive "h" 7 =
        (run handle create longFirst).isActive "h" 7 := by
  have hshort : forall call, call ∈ shortFirst -> call.NotAfter 7 := by decide +kernel
  have hlong : forall call, call ∈ longFirst -> call.NotAfter 7 := by decide +kernel
  have hboth := run_isActive_iff_and_agree shortFirst 7 hshort "h" (by decide +kernel)
  constructor
  · exact hboth.left.mpr ⟨(8 : ℚ), by decide +kernel, by decide +kernel⟩
  · apply hboth.right longFirst hlong
    intro record
    show record ∈ [("h", ((5 : ℚ) : Deadline)), ("h", ((8 : ℚ) : Deadline))] <->
      record ∈ [("h", ((8 : ℚ) : Deadline)), ("h", ((5 : ℚ) : Deadline))]
    simp only [List.mem_cons, List.not_mem_nil, or_false]
    exact Or.comm

def nanFirst : List TombstoneCall :=
  [.record "h" .nan {"a"}, .record "h" (5 : ℚ) {"b"}]

def nanLast : List TombstoneCall :=
  [.record "h" (5 : ℚ) {"b"}, .record "h" .nan {"a"}]

/-- Not a number is never reached if it comes first, and is forgotten if it comes last. -/
theorem nanFirst_disagrees_nanLast :
    (forall record, record ∈ TombstoneCall.deliveries nanFirst <->
      record ∈ TombstoneCall.deliveries nanLast) ∧
      (run handle create nanFirst).isActive "h" 7 = true ∧
      (run handle create nanLast).isActive "h" 7 = false ∧
      ¬ exists deadline, ("h", deadline) ∈ TombstoneCall.deliveries nanFirst ∧
        ((7 : ℚ) : Deadline) < deadline := by
  refine ⟨fun record => ?_, by decide +kernel, by decide +kernel, ?_⟩
  · show record ∈ [("h", Deadline.nan), ("h", ((5 : ℚ) : Deadline))] <->
      record ∈ [("h", ((5 : ℚ) : Deadline)), ("h", Deadline.nan)]
    simp only [List.mem_cons, List.not_mem_nil, or_false]
    exact Or.comm
  · rintro ⟨deadline, hmem, hlater⟩
    have hnone : forall record, record ∈ TombstoneCall.deliveries nanFirst ->
        ¬ ((7 : ℚ) : Deadline) < record.2 := by
      decide +kernel
    exact hnone _ hmem hlater

end TombstoneTable
end Store
end Membrane
