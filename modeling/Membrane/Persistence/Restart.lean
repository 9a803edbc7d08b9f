import Membrane.Persistence.WriteBehind
import Membrane.Serving.EvictionOrder
import Membrane.Serving.QuotaAccounting

/-!
# Restart

A server that starts again stores what the backend lists for its node, in the order of the
keys.  A key is forgotten instead when its record has expired or its bytes are gone.
-/

namespace Membrane
namespace Persistence

open Foundation Data Store Serving

theorem residentBytes_le_of_get? {held others : Dict String Fragment} {keys : List String}
    (h : forall k, others.get? k = if k ∈ keys then held.get? k else none) :
    residentBytes others ≤ residentBytes held := by
  have hperm : others.entries.Perm
      (held.entries.filter (fun entry => decide (entry.1 ∈ keys))) :=
    Dict.entries_perm_filter (fun k => decide (k ∈ keys)) (fun k => (h k).trans (by simp))
  have hbytes := Node.totalBytes_le_of_subperm
    (hperm.subperm_right.mpr List.filter_sublist.subperm)
  unfold totalBytes at hbytes
  unfold residentBytes Dict.values
  rwa [List.map_map, List.map_map]

structure Restoring (sigma tau pi : Type) where
  node : Node sigma tau pi
  restored : Nat
  forgotten : List String

section Restoring

variable {sigma tau pi : Type} [InventoryHash] [PayloadStore sigma] [LowerTier tau]
variable [EvictionPolicy pi]

theorem store_of_room {n : Node sigma tau pi} {f : Fragment}
    (hfault : Node.payloadFault sigma f = none) (hn : n.Invariant) {caller : Caller}
    (hgates : n.PassesGates f caller) (hnew : ¬ f.key ∈ n.fragments)
    (hfits : n.table.memoryUsage + f.payloadSize ≤ n.maxMemoryBytes) (isPrimary : Bool)
    (now evictTime : ℚ) :
    n.store f isPrimary caller now evictTime =
      (.ok true, (n.charged f).inserted f isPrimary now) := by
  have husage : 0 ≤ n.table.memoryUsage := by
    rw [hn.bookkeeping.memory]
    exact residentBytes_nonneg _
  rw [Node.store_of_passesGates hgates, if_neg (by omega)]
  unfold Node.storeLocked
  rw [Node.charged_fragments, Node.charged_table, Node.charged_maxMemoryBytes, if_neg hnew,
    if_neg (by omega)]
  exact Node.insertFragment_eq hfault

variable [TextRecord.NumberText]

/-- Without a result an exception ends the start. -/
def restoreFragment (r : Redis) (times : String -> ℚ × ℚ) (s : Restoring sigma tau pi)
    (contentHash : String) : Option (Restoring sigma tau pi) :=
  let forgets := { s with forgotten := s.forgotten ++ [contentHash] }
  match r.records.get? contentHash with
  | none => some forgets
  | some (record, _) =>
    match TextRecord.deserializeFragment record with
    | .error _ => none
    | .ok f =>
      if (Node.payloadFault sigma f).isSome then none
      else if f.payloadRef.any (fun ref => !PayloadStore.has s.node.contentStore ref) then
        some forgets
      else
        match s.node.store f (r.primary.get? contentHash = some s.node.nodeId)
          Caller.internal (times contentHash).1 (times contentHash).2 with
        | (.error _, _) => none
        | (.ok stored, node) =>
          some { s with node := node, restored := s.restored + stored.toNat }

def restoreFragments (r : Redis) (times : String -> ℚ × ℚ) (n : Node sigma tau pi) :
    Option (Restoring sigma tau pi) :=
  ((r.listNodeFragments n.nodeId).mergeSort (fun j k => decide (j ≤ k))).foldlM
    (restoreFragment r times) { node := n, restored := 0, forgotten := [] }

/-!
# Everything comes back
-/

structure Restored (held : Dict String Fragment) (bytes : sigma) (keys : List String)
    (s : Restoring sigma tau pi) : Prop where
  invariant : s.node.Invariant
  contentStore : s.node.contentStore = bytes
  admissionPolicy : s.node.admissionPolicy = none
  quotas : forall tenant, s.node.quotas.get? tenant = none
  room : residentBytes held ≤ s.node.maxMemoryBytes
  fragments : forall k, s.node.fragments.get? k = if k ∈ keys then held.get? k else none
  restored : s.restored = keys.length
  forgotten : s.forgotten = []

/-- The reference is not the empty text, and the content store has the bytes there. -/
structure Present (bytes : sigma) (f : Fragment) : Prop where
  ref : f.payloadRef ≠ some ""
  faultless : Node.payloadFault sigma f = none
  present : forall ref, f.payloadRef = some ref -> PayloadStore.has bytes ref = true

structure Recoverable (r : Redis) (bytes : sigma) (f : Fragment) : Prop
    extends Present bytes f where
  record : exists lifetime,
    r.records.get? f.key = some (TextRecord.serializeFragment f, lifetime)

section

variable {held : Dict String Fragment} {bytes : sigma} {f : Fragment}
  {keys : List String} {s : Restoring sigma tau pi} {r : Redis}

theorem Restored.step (h : Restored held bytes keys s) (hf : held.get? f.key = some f)
    (hk : ¬ f.key ∈ keys) (hrecoverable : Recoverable r bytes f) (times : String -> ℚ × ℚ) :
    exists next, restoreFragment r times s f.key = some next ∧
      Restored held bytes (keys ++ [f.key]) next := by
  have hget : forall k, (s.node.fragments.set f.key f).get? k =
      if k ∈ keys ++ [f.key] then held.get? k else none := by
    intro k
    rw [Dict.get?_set, h.fragments k]
    by_cases hsame : k = f.key
    · simp [hsame, hf]
    · simp [hsame]
  have hnew : ¬ f.key ∈ s.node.fragments := by
    rw [← Dict.get?_eq_none_iff, h.fragments, if_neg hk]
  have hfits : s.node.table.memoryUsage + f.payloadSize ≤ s.node.maxMemoryBytes := by
    rw [h.invariant.bookkeeping.memory]
    show residentBytes s.node.fragments + f.payloadSize ≤ _
    rw [← residentBytes_set_of_not_mem f hnew]
    exact (residentBytes_le_of_get? hget).trans h.room
  have hpresent : f.payloadRef.any (fun ref => !PayloadStore.has s.node.contentStore ref) =
      false := by
    rw [h.contentStore]
    cases hsome : f.payloadRef with
    | none => rfl
    | some ref => simp [hrecoverable.present ref hsome]
  rcases hrecoverable.record with ⟨lifetime, hrecord⟩
  have hgates : s.node.PassesGates f Caller.internal :=
    Node.passesGates_of_open rfl h.admissionPolicy (h.quotas f.tenantId)
  have hstore := store_of_room hrecoverable.faultless h.invariant hgates hnew hfits
    (r.primary.get? f.key = some s.node.nodeId) (times f.key).1 (times f.key).2
  refine ⟨⟨(s.node.charged f).inserted f (r.primary.get? f.key = some s.node.nodeId)
    (times f.key).1, s.restored + 1, s.forgotten⟩, ?_, ?_, ?_, ?_, ?_, ?_, ?_, ?_, h.forgotten⟩
  · have hread := TextRecord.deserializeFragment_of_refAt
      (TextRecord.refAt_serialize hrecoverable.ref)
    simp only [restoreFragment, hrecord, hread, hrecoverable.faultless, hpresent, hstore]
    rfl
  · exact (congrArg (fun stored => stored.2.Invariant) hstore).mp
      (Node.store_invariant_of (fun _ => hrecoverable.faultless) h.invariant)
  · exact (Node.charged_contentStore ..).trans h.contentStore
  · show (s.node.charged f).admissionPolicy = none
    rw [Node.charged_eq]
    exact h.admissionPolicy
  · intro tenant
    show (s.node.charged f).quotas.get? tenant = none
    rw [Node.charged_quotas hgates.right.right, get?_chargedQuotas, h.quotas, Option.map_none,
      ite_self]
  · show residentBytes held ≤ (s.node.charged f).maxMemoryBytes
    rw [Node.charged_maxMemoryBytes]
    exact h.room
  · intro k
    rw [Node.get?_inserted, Node.charged_fragments, ← Dict.get?_set]
    exact hget k
  · rw [List.length_append, ← h.restored]
    rfl

theorem Restored.fold {rest : List String} (h : Restored held bytes keys s)
    (hnodup : (keys ++ rest).Nodup)
    (hrest : forall k, k ∈ rest ->
      exists f, f.key = k ∧ held.get? k = some f ∧ Recoverable r bytes f)
    (times : String -> ℚ × ℚ) :
    exists last, rest.foldlM (restoreFragment r times) s = some last ∧
      Restored held bytes (keys ++ rest) last := by
  induction rest generalizing keys s with
  | nil => exact ⟨s, rfl, by rwa [List.append_nil]⟩
  | cons k rest ih =>
    rcases hrest k List.mem_cons_self with ⟨f, rfl, hf, hrecoverable⟩
    have hk : ¬ f.key ∈ keys := fun hmem =>
      (List.disjoint_of_nodup_append hnodup) hmem List.mem_cons_self
    rcases h.step hf hk hrecoverable times with ⟨next, hnext, hrestored⟩
    rw [List.append_cons] at hnodup ⊢
    rcases ih hrestored hnodup (fun j hj => hrest j (List.mem_cons_of_mem _ hj)) with
      ⟨last, hlast, hall⟩
    exact ⟨last, by rw [List.foldlM_cons, hnext]; exact hlast, hall⟩

end

def Fits (fresh : Config sigma tau pi) (held : Dict String Fragment) : Prop :=
  residentBytes held ≤ fresh.maxMemoryBytes ∧
    forall k f, held.get? k = some f -> Present fresh.contentStore f

end Restoring

section Sample

attribute [local instance] InventoryHash.constant TextRecord.tallies

def blobCopy : Fragment :=
  Fragment.plain "public" "h" (some "blob") 1 .strong validateTenantId_public nonempty_h

def restarted : Config InProcessBytes Empty WeightedLRU :=
  { Config.default "n0" 100 with
    contentStore :=
      { store := Dict.empty.set "blob" [7], usedBytes := 1, capacityBytes := none } }

end Sample

end Persistence
end Membrane
