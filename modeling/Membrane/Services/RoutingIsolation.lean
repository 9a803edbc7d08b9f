import Membrane.Serving.IndexMirror
import Membrane.Serving.TenantView
import Membrane.Services.Lookups
import Membrane.Services.Placement

/-!
# Isolation of routing answers

Two servers differ only in what tenants other than the caller's hold.  The local part
of a routing answer is the same in both.  The windows behind it are looked up without
the caller, so the answers are the same exactly when every window has the same source
in both.
-/

namespace Membrane
namespace Services

open Foundation Data Store Index Serving

/-!
# Two nodes that differ in other tenants' fragments
-/

structure Resembles {sigma tau pi : Type} (t : String) (n n' : Node sigma tau pi) :
    Prop where
  nodeId : n'.nodeId = n.nodeId
  indexSystem : n'.indexSystem = n.indexSystem
  fragments : forall k f, f.tenantId = t ∨ f.tenantId = defaultTenant ->
    (n'.fragments.get? k = some f <-> n.fragments.get? k = some f)

section Nodes

variable {sigma tau pi : Type} {n n' : Node sigma tau pi} {t h : String} {f : Fragment}

theorem Resembles.get?_eq (hr : Resembles t n n') {k : String}
    (hmine : forall f, n.fragments.get? k = some f ->
      f.tenantId = t ∨ f.tenantId = defaultTenant)
    (hmine' : forall f, n'.fragments.get? k = some f ->
      f.tenantId = t ∨ f.tenantId = defaultTenant) :
    n'.fragments.get? k = n.fragments.get? k := by
  apply Option.ext
  intro f
  constructor
  · intro hf
    exact (hr.fragments k f (hmine' f hf)).mp hf
  · intro hf
    exact (hr.fragments k f (hmine f hf)).mpr hf

theorem locate_internal_of_absent (hh : ¬ keySeparator ∈ h.toList)
    (hbare : ¬ h ∈ n.fragments) (hcopies : ¬ h ∈ n.table.tenantKeys) :
    n.locate h Caller.internal = none := by
  have hnone := (Dict.get?_eq_none_iff _ _).mpr hcopies
  unfold Node.locate FragmentTable.anyTenantCopy Dict.getD
  rw [if_neg hh, if_neg hbare,
    if_neg (fun hand => hand.left rfl), hnone]
  rfl

theorem tenant_of_bareKey (hh : ¬ keySeparator ∈ h.toList) (hkey : f.key = h) :
    f.tenantId = t ∨ f.tenantId = defaultTenant := by
  rw [← fragmentKey_defaultTenant h] at hkey
  rcases Fragment.tenant_of_key (by decide) hh hkey with hdefault | hdefault
  · exact Or.inr hdefault
  · exact Or.inr hdefault

variable [InventoryHash] {caller : Caller}

section

variable (hr : Resembles t n n') (hn : n.Consistent) (hn' : n'.Consistent)

include hr hn hn'

theorem Resembles.ownKey_eq (ht : ¬ keySeparator ∈ t.toList) (hh : ¬ keySeparator ∈ h.toList) :
    n'.fragments.get? (fragmentKey t h) = n.fragments.get? (fragmentKey t h) :=
  hr.get?_eq (fun _ hf => Fragment.tenant_of_key ht hh (hn.bookkeeping.keyed _ _ hf))
    (fun _ hf => Fragment.tenant_of_key ht hh (hn'.bookkeeping.keyed _ _ hf))

theorem Resembles.bareKey_eq (hh : ¬ keySeparator ∈ h.toList) :
    n'.fragments.get? h = n.fragments.get? h :=
  hr.get?_eq (fun _ hf => tenant_of_bareKey hh (hn.bookkeeping.keyed _ _ hf))
    (fun _ hf => tenant_of_bareKey hh (hn'.bookkeeping.keyed _ _ hf))

end

section

variable (hr : Resembles caller.tenant n n') (hn : n.Consistent) (hn' : n'.Consistent)
  (ht : ¬ keySeparator ∈ caller.tenant.toList) (hempty : caller.tenant ≠ "")
  (hadmin : hasAdminScope caller.scopes = false)

include hr hn hn' ht hempty hadmin

theorem Resembles.locate_eq (hh : ¬ keySeparator ∈ h.toList) :
    n'.locate h caller = n.locate h caller ∧
      forall k, n.locate h caller = some k ->
        n'.fragments.get? k = n.fragments.get? k := by
  have hbare := hr.bareKey_eq hn hn' hh
  have hbareMem : h ∈ n'.fragments <-> h ∈ n.fragments := by
    rw [Dict.mem_iff_exists_get?, Dict.mem_iff_exists_get?, hbare]
  have hownMem : (caller.tenant ≠ "" ∧ caller.tenant ≠ defaultTenant ∧
      fragmentKey caller.tenant h ∈ n'.fragments) <->
        (caller.tenant ≠ "" ∧ caller.tenant ≠ defaultTenant ∧
          fragmentKey caller.tenant h ∈ n.fragments) := by
    refine and_congr_right fun _ => and_congr_right fun _ => ?_
    rw [Dict.mem_iff_exists_get?, Dict.mem_iff_exists_get?,
      hr.ownKey_eq hn hn' ht hh]
  unfold Node.locate
  rw [if_neg hh, if_neg hh]
  simp only [hownMem, hbareMem, if_pos (And.intro hempty hadmin)]
  refine ⟨trivial, fun k hk => ?_⟩
  split_ifs at hk with hown
  · cases hk
    exact hr.ownKey_eq hn hn' ht hh
  · cases hk
    exact hbare

theorem Resembles.ownCopy_eq
    (hh : ¬ keySeparator ∈ f.payloadHash.toList) : ownCopy n' f caller = ownCopy n f caller := by
  have hlocate := hr.locate_eq hn hn' ht hempty hadmin hh
  unfold ownCopy
  rw [hlocate.left]
  cases hk : n.locate f.payloadHash caller with
  | none => rfl
  | some k =>
    simp only
    rw [hlocate.right k hk]

end

end Nodes

/-!
# Two reconstructors that see the same
-/

namespace Reconstructor

variable {owner error : Type} {r r' : Reconstructor owner error}

structure SeesAlike (r r' : Reconstructor owner error) : Prop where
  indexSystem : r'.indexSystem = r.indexSystem
  config : r'.config = r.config
  verifies : r.config.verifyTokens = true
  wellBuilt : r.indexSystem.WellBuilt
  sees : forall f : Fragment, ¬ keySeparator ∈ f.payloadHash.toList -> r'.sees f = r.sees f

variable (promptTokens : List Int) (modelId : String)

theorem SeesAlike.prefixHit_eq (h : SeesAlike r r') (i : Nat) (best : Option Fragment)
    {hash : String} (hplain : ¬ keySeparator ∈ hash.toList) :
    r'.prefixHit modelId i best hash = r.prefixHit modelId i best hash := by
  unfold prefixHit
  rw [h.indexSystem]
  cases hentry : r.indexSystem.exactLookup hash with
  | none => rfl
  | some entry =>
    have hhash := (h.wellBuilt.entry hash entry hentry).right
    have hsees := h.sees entry.fragment (by rw [hhash]; exact hplain)
    simp only [hsees]

variable [TokenHash]

section

variable (h : SeesAlike r r')

include h

theorem SeesAlike.accepts_eq (f : Fragment) :
    r'.accepts promptTokens modelId f = r.accepts promptTokens modelId f := by
  have hverify : r'.config.verifyTokens = true := by
    rw [h.config]
    exact h.verifies
  rw [Bool.eq_iff_iff, accepts_iff hverify, accepts_iff h.verifies]
  constructor
  · rintro ⟨hmodel, hsees, hstop, hhash⟩
    rw [h.sees f (tokenHashes_plain hhash)] at hsees
    exact ⟨hmodel, hsees, hstop, hhash⟩
  · rintro ⟨hmodel, hsees, hstop, hhash⟩
    rw [← h.sees f (tokenHashes_plain hhash)] at hsees
    exact ⟨hmodel, hsees, hstop, hhash⟩

theorem SeesAlike.longestMatch_eq :
    r'.longestMatch promptTokens modelId = r.longestMatch promptTokens modelId := by
  unfold longestMatch
  rw [h.config]
  congr 1
  funext i
  simp only [tokenHashes, List.foldl_cons, List.foldl_nil,
    h.prefixHit_eq modelId i _ (TokenHash.tokenHash_plain _),
    h.prefixHit_eq modelId i _ (TokenHash.computeContentHash_plain _)]

theorem SeesAlike.findNextAdjacent_eq (currentEnd : Int) :
    r'.findNextAdjacent promptTokens modelId currentEnd =
      r.findNextAdjacent promptTokens modelId currentEnd := by
  unfold findNextAdjacent
  rw [h.indexSystem, h.config]
  simp only [h.accepts_eq]

theorem SeesAlike.extend_eq (rounds : Nat) (a : Assembly) :
    r'.extend promptTokens modelId rounds a = r.extend promptTokens modelId rounds a := by
  induction rounds generalizing a with
  | zero => rfl
  | succ rounds ih =>
    rw [extend, extend, h.findNextAdjacent_eq]
    split_ifs
    · cases r.findNextAdjacent promptTokens modelId (coveredEnd a.coverage) with
      | none => rfl
      | some f => exact ih (a.cover f)
    · rfl

theorem SeesAlike.assemble_eq :
    r'.assemble promptTokens modelId = r.assemble promptTokens modelId := by
  have hfits : r'.fits promptTokens modelId = r.fits promptTokens modelId := by
    funext gap f
    rw [fits, fits, h.accepts_eq]
  have hfill : r'.fillGap promptTokens modelId = r.fillGap promptTokens modelId := by
    funext a gap
    rw [fillGap, fillGap, hfits, h.indexSystem]
  unfold assemble firstStep
  rw [h.longestMatch_eq, h.extend_eq, hfill]

end

end Reconstructor

/-!
# Prefix lookups
-/

namespace MemoryService

variable {sigma tau pi : Type} {m m' : MemoryService sigma tau pi} {caller : Caller}

variable [InventoryHash] [ContentStore sigma] [LowerTier tau] [EvictionPolicy pi]

structure Alike (caller : Caller) (m m' : MemoryService sigma tau pi) : Prop where
  node : Resembles caller.tenant m.node m'.node
  consistent : m.node.Consistent
  consistent' : m'.node.Consistent
  wellBuilt : m.node.indexSystem.WellBuilt
  plain : ¬ keySeparator ∈ caller.tenant.toList
  authenticated : caller.tenant ≠ ""
  restricted : hasAdminScope caller.scopes = false

variable [TokenHash]

theorem Alike.lookupFragments_eq (h : Alike caller m m') (tokens : List Int) (modelId : String) :
    m'.lookupFragments tokens modelId caller = m.lookupFragments tokens modelId caller := by
  have hsees : Reconstructor.SeesAlike (m.reconstructor caller false (fun _ => 0))
      (m'.reconstructor caller false (fun _ => 0)) :=
    { indexSystem := h.node.indexSystem
      config := rfl
      verifies := rfl
      wellBuilt := h.wellBuilt
      sees := fun f hf => by
        show (ownCopy _ _ _).isSome = (ownCopy _ _ _).isSome
        rw [h.node.ownCopy_eq h.consistent h.consistent' h.plain h.authenticated
          h.restricted hf] }
  rw [lookupFragments, lookupFragments, hsees.assemble_eq]

variable [PrefixDigest]

theorem Alike.prefixLookup_eq (h : Alike caller m m') (hcache : m'.prefixCache = m.prefixCache)
    (hcovers : m'.covers = m.covers) (hplain : m.PlainCovers) (tokens : List Int)
    (modelId : String) (lookedUpAt mintedAt now : ℚ) :
    (m'.prefixLookup tokens modelId caller lookedUpAt mintedAt now).1 =
      (m.prefixLookup tokens modelId caller lookedUpAt mintedAt now).1 := by
  have hfresh : m'.freshAnswer tokens modelId caller = m.freshAnswer tokens modelId caller := by
    rw [freshAnswer, freshAnswer, h.lookupFragments_eq]
  cases hlooked :
      (m.prefixCache.lookup (cacheKey caller.tenant modelId) tokens lookedUpAt).1.handle with
  | none =>
    rw [prefixLookup_of_miss tokens modelId lookedUpAt mintedAt now hlooked, ← hfresh]
    rw [← hcache] at hlooked
    exact prefixLookup_of_miss tokens modelId lookedUpAt mintedAt now hlooked
  | some handle =>
    have hlooked' := hlooked
    rw [← hcache] at hlooked'
    have hlocated : (m.covers.getD handle.handle []).all
          (fun hash => (m'.node.locate hash caller).isSome) =
        (m.covers.getD handle.handle []).all
          (fun hash => (m.node.locate hash caller).isSome) := by
      rw [Dict.getD]
      cases hhashes : m.covers.get? handle.handle with
      | none => rfl
      | some hashes =>
        rw [Bool.eq_iff_iff, List.all_eq_true, List.all_eq_true]
        refine forall₂_congr fun hash hhash => ?_
        rw [(h.node.locate_eq h.consistent h.consistent' h.plain h.authenticated
          h.restricted (hplain _ _ hhashes hash hhash)).left]
    rw [prefixLookup_of_handle tokens modelId lookedUpAt mintedAt now hlooked,
      prefixLookup_of_handle tokens modelId lookedUpAt mintedAt now hlooked', hfresh,
      hcovers, hcache, hlocated]

end MemoryService

/-!
# Routing
-/

theorem exists_new_model (known : List String) :
    exists modelId, ¬ modelId ∈ known ∧ forall tenant, ¬ cacheKey tenant modelId ∈ known := by
  have hlong : forall s, s ∈ known -> s.length ≤ (known.map String.length).sum :=
    fun s hs => List.le_sum_of_mem (List.mem_map_of_mem hs)
  have hlength :
      (String.ofList (List.replicate ((known.map String.length).sum + 1) 'm')).length =
      (known.map String.length).sum + 1 := by
    rw [String.length_ofList, List.length_replicate]
  refine ⟨String.ofList (List.replicate ((known.map String.length).sum + 1) 'm'), ?_, ?_⟩
  · intro hmem
    have := hlong _ hmem
    omega
  · intro tenant hmem
    have := hlong _ hmem
    rw [cacheKey, String.length_append] at this
    omega

namespace PlacementService

variable {rho sigma tau pi : Type} {s s' : PlacementService rho sigma tau pi}
  {caller : Caller} {history : List String}

def remembered (s : PlacementService rho sigma tau pi) :
    Option (PrefixCache × Dict String (List String)) :=
  s.memory.map (fun m => (m.prefixCache, m.covers))

/-- Two states of a server that differ in the fragments of tenants other than the
given one and the default one. -/
structure DiffersInOthers (t : String) (s s' : PlacementService rho sigma tau pi) :
    Prop where
  node : Resembles t s.view.node s'.view.node
  region : s'.view.region = s.view.region
  cluster : s'.view.cluster = s.view.cluster
  replicaCount : s'.view.replicaCount = s.view.replicaCount
  gpuLoad : s'.view.gpuLoad = s.view.gpuLoad
  policy : s'.policy = s.policy
  remembered : s'.remembered = s.remembered

theorem DiffersInOthers.located_eq {t : String} (h : DiffersInOthers t s s')
    (contentHash nodeId : String) :
    s'.located contentHash nodeId = s.located contentHash nodeId := by
  unfold located ClusterView.url ClusterView.localId
  rw [h.cluster, h.node.nodeId]

/-!
# The windows behind a match
-/

variable {window : List Int} {matched : Int}

section Windows

section

variable [TokenHash]

def windowAnswer (s : PlacementService rho sigma tau pi) (window : List Int) :
    Option String -> Int × List Located
  | none => (0, [])
  | some nodeId => (window.length, [s.located (TokenHash.tokenHash window) nodeId])

theorem source_eq_of_windowAnswer {source source' : Option String}
    (h : s'.windowAnswer window source' = s.windowAnswer window source) : source' = source := by
  cases source' with
  | none =>
    cases source with
    | none => rfl
    | some nodeId => exact absurd (congrArg Prod.snd h) (List.cons_ne_nil _ _).symm
  | some nodeId' =>
    cases source with
    | none => exact absurd (congrArg Prod.snd h) (List.cons_ne_nil _ _)
    | some nodeId =>
      have hhead := (List.cons.inj (congrArg Prod.snd h)).left
      rw [show nodeId' = nodeId from congrArg Located.nodeId hhead]

end

variable [PlacementPolicy rho sigma tau pi]

theorem source_of_single (hsingle : s.view.cluster = none) (contentHash : String) :
    s.source history contentHash =
      if (s.view.node.locate contentHash Caller.internal).isSome then
        some s.view.localId
      else none := by
  unfold source ClusterView.holders
  rw [hsingle]
  split_ifs with hheld
  · simp
  · rfl

variable [TokenHash]

def SameSources (history : List String) (s s' : PlacementService rho sigma tau pi) : Prop :=
  forall window : List Int, window ≠ [] -> window.length ≤ windowTokens ->
    s'.source history (TokenHash.tokenHash window) =
      s.source history (TokenHash.tokenHash window)

theorem scanWindows_eq {t : String} (h : DiffersInOthers t s s')
    (hsources : SameSources history s s') (tokens : List Int) (rounds : Nat)
    (hmatched : 0 ≤ matched) (found : List Located) :
    s'.scanWindows tokens history rounds (matched, found) =
      s.scanWindows tokens history rounds (matched, found) := by
  induction rounds generalizing matched found with
  | zero => rfl
  | succ rounds ih =>
    unfold scanWindows
    split_ifs with hmore
    · have hwindow : (tokens.drop matched.toNat).take windowTokens ≠ [] := by
        rw [← List.length_pos_iff, List.length_take, List.length_drop, windowTokens]
        omega
      simp only
      rw [hsources _ hwindow (List.length_take_le _ _)]
      cases s.source history
          (TokenHash.tokenHash ((tokens.drop matched.toNat).take windowTokens)) with
      | none => rfl
      | some nodeId =>
        simp only
        rw [h.located_eq]
        exact ih (by omega) _
    · rfl

theorem scanWindows_done {tokens : List Int} (hdone : (tokens.length : Int) ≤ matched)
    (rounds : Nat) (found : List Located) :
    s.scanWindows tokens history rounds (matched, found) = (matched, found) := by
  cases rounds with
  | zero => rfl
  | succ rounds =>
    unfold scanWindows
    rw [if_neg (by omega)]

theorem scanWindows_window (hwindow : window ≠ []) (hlength : window.length ≤ windowTokens) :
    s.scanWindows window history window.length (0, []) =
      s.windowAnswer window (s.source history (TokenHash.tokenHash window)) := by
  have hpos := List.length_pos_iff.mpr hwindow
  have hall : (window.drop (0 : Int).toNat).take windowTokens = window :=
    List.take_of_length_le hlength
  cases hrounds : window.length with
  | zero => omega
  | succ rounds =>
    unfold scanWindows
    rw [if_pos (by omega)]
    simp only [hall]
    cases s.source history (TokenHash.tokenHash window) with
    | none => rfl
    | some nodeId =>
      simp only
      rw [scanWindows_done (by omega), Int.zero_add]
      rfl

end Windows

/-!
# The whole answer
-/

variable [InventoryHash]

structure Sound (s : PlacementService rho sigma tau pi) : Prop where
  consistent : s.view.node.Consistent
  wellBuilt : s.view.node.indexSystem.WellBuilt
  covers : forall m, m ∈ s.memory -> m.PlainCovers

variable [ContentStore sigma] [LowerTier tau] [EvictionPolicy pi] [TokenHash] [PrefixDigest]

theorem localMatch_eq (h : DiffersInOthers caller.tenant s s') (hs : s.Sound)
    (hs' : s'.Sound) (htenant : validateTenantId caller.tenant = .ok ())
    (hadmin : hasAdminScope caller.scopes = false) (tokens : List Int) (modelId : String)
    (lookedUpAt mintedAt now : ℚ) :
    s'.localMatch tokens modelId caller lookedUpAt mintedAt now =
      s.localMatch tokens modelId caller lookedUpAt mintedAt now := by
  have hvalid := (validateTenantId_eq_ok_iff _).mp htenant
  have hremembered := h.remembered
  unfold remembered at hremembered
  unfold localMatch
  cases hm : s.memory with
  | none =>
    rw [hm, Option.map_none, Option.map_eq_none_iff] at hremembered
    rw [hremembered]
  | some m =>
    rw [hm, Option.map_some, Option.map_eq_some_iff] at hremembered
    rcases hremembered with ⟨m', hm', hparts⟩
    rw [hm']
    have hnode := s.shared m hm
    have hnode' := s'.shared m' hm'
    have halike : MemoryService.Alike caller m m' :=
      { node := by rw [hnode, hnode']; exact h.node
        consistent := by rw [hnode]; exact hs.consistent
        consistent' := by rw [hnode']; exact hs'.consistent
        wellBuilt := by rw [hnode]; exact hs.wellBuilt
        plain := fun hmem => hvalid.right.right _ hmem (by decide)
        authenticated := hvalid.left
        restricted := hadmin }
    simp only
    rw [halike.prefixLookup_eq (congrArg Prod.fst hparts) (congrArg Prod.snd hparts)
      (hs.covers m hm)]

theorem localMatch_nonneg {tokens : List Int} {modelId : String} {lookedUpAt mintedAt now : ℚ}
    {hashes : List String}
    (h : s.localMatch tokens modelId caller lookedUpAt mintedAt now =
      .ok (matched, hashes)) : 0 ≤ matched := by
  unfold localMatch at h
  cases hm : s.memory with
  | none =>
    rw [hm] at h
    cases h
    exact le_refl 0
  | some m =>
    rcases m.prefixLookup_nonneg caller tokens modelId lookedUpAt mintedAt now with
      ⟨answer, hanswer, hnonneg⟩
    simp only [hm, hanswer] at h
    cases h
    exact hnonneg

variable [PlacementPolicy rho sigma tau pi]

theorem cachedPrefix_window (hs : s.Sound) (hwindow : window ≠ [])
    (hlength : window.length ≤ windowTokens) {modelId : String}
    (hmodel : forall f, f ∈ s.view.node.indexSystem.semantic.fragments ->
      f.identity.modelId ≠ modelId)
    (hcache : forall parts, s.remembered = some parts ->
      forall e, e ∈ parts.1.byHandle.values ->
        e.handle.modelId ≠ cacheKey caller.tenant modelId)
    (lookedUpAt mintedAt now : ℚ) :
    s.cachedPrefix window modelId caller history lookedUpAt mintedAt now = .ok
      (s.windowAnswer window (s.source history (TokenHash.tokenHash window))) := by
  have hlocal : s.localMatch window modelId caller lookedUpAt mintedAt now =
      .ok (0, []) := by
    unfold localMatch
    cases hm : s.memory with
    | none => rfl
    | some m =>
      have hnode := s.shared m hm
      simp only
      rw [MemoryService.prefixLookup_of_other_model]
      · rfl
      · rw [hnode]
        exact hs.wellBuilt
      · rw [hnode]
        exact hmodel
      · exact hcache (m.prefixCache, m.covers) (by rw [remembered, hm]; rfl)
  unfold cachedPrefix
  rw [hlocal, ← scanWindows_window hwindow hlength]
  rfl

/-- For a caller of a tenant the answers are the same in both states for all prompts and
models exactly when all windows have the same sources. -/
theorem routing_isolated_iff (h : DiffersInOthers caller.tenant s s') (hs : s.Sound)
    (hs' : s'.Sound) (htenant : validateTenantId caller.tenant = .ok ())
    (hadmin : hasAdminScope caller.scopes = false) (history : List String)
    (lookedUpAt mintedAt now : ℚ) :
    (forall tokens modelId,
      s'.cachedPrefix tokens modelId caller history lookedUpAt mintedAt now =
        s.cachedPrefix tokens modelId caller history lookedUpAt mintedAt now ∧
      (tokens ≠ [] -> forall contentHash,
        s'.routeFragments contentHash tokens modelId caller history lookedUpAt mintedAt now =
          s.routeFragments contentHash tokens modelId caller history lookedUpAt mintedAt
            now)) <->
      SameSources history s s' := by
  constructor
  · intro hall window hwindow hlength
    rcases exists_new_model
      (s.view.node.indexSystem.semantic.fragments.map (fun f => f.identity.modelId) ++
        (s.remembered.toList.flatMap (fun parts => parts.1.byHandle.values.map
          (fun e => e.handle.modelId)))) with ⟨modelId, hindexed, hcached⟩
    have hmodel : forall f, f ∈ s.view.node.indexSystem.semantic.fragments ->
        f.identity.modelId ≠ modelId := by
      rintro f hf rfl
      exact hindexed (List.mem_append_left _ (List.mem_map_of_mem hf))
    have hcache : forall parts, s.remembered = some parts ->
        forall e, e ∈ parts.1.byHandle.values ->
          e.handle.modelId ≠ cacheKey caller.tenant modelId := by
      intro parts hparts e he hsame
      apply hcached caller.tenant
      rw [← hsame, hparts]
      exact List.mem_append_right _ (List.mem_flatMap.mpr
        ⟨parts, List.mem_cons_self, List.mem_map_of_mem he⟩)
    have hanswers := (hall window modelId).left
    rw [cachedPrefix_window hs hwindow hlength hmodel hcache,
      cachedPrefix_window hs' hwindow hlength (by rw [h.node.indexSystem]; exact hmodel)
        (by rw [h.remembered]; exact hcache)] at hanswers
    exact source_eq_of_windowAnswer (Except.ok.inj hanswers)
  · intro hsources
    have hleading : forall tokens modelId,
        s'.cachedPrefix tokens modelId caller history lookedUpAt mintedAt now =
          s.cachedPrefix tokens modelId caller history lookedUpAt mintedAt now := by
      intro tokens modelId
      unfold cachedPrefix
      rw [localMatch_eq h hs hs' htenant hadmin]
      cases hlocal : s.localMatch tokens modelId caller lookedUpAt mintedAt now with
      | error e => rfl
      | ok found =>
        have hlocated : (fun hash => s'.located hash s'.view.localId) =
            fun hash => s.located hash s.view.localId := by
          funext hash
          rw [h.located_eq, ClusterView.localId, h.node.nodeId, ClusterView.localId]
        simp only
        rw [hlocated, scanWindows_eq h hsources tokens tokens.length
          (localMatch_nonneg hlocal)]
    intro tokens modelId
    refine ⟨hleading tokens modelId, fun hprompt contentHash => ?_⟩
    rw [routeFragments, routeFragments, if_pos hprompt, if_pos hprompt]
    exact hleading tokens modelId

end PlacementService

/-!
# A window of another tenant
-/

section Samples

attribute [local instance] InventoryHash.constant TokenHash.letters PrefixDigest.constant

namespace MemoryService

def storeWindow (n : Node InProcessBytes Empty WeightedLRU) (f : Fragment) :
    Node InProcessBytes Empty WeightedLRU :=
  (n.store f true Caller.internal 0 0).2

def windowService (fragments : List Fragment) : MemoryService InProcessBytes Empty WeightedLRU :=
  { node := fragments.foldl storeWindow (Node.create (Config.default "n0" 100))
    backend := some
      { prefill := fun _ _ => .ok [], simulatedPayload := fun _ => .ok none }
    compat := none
    prefixCache := PrefixCache.create 4
    covers := Dict.empty
    dependents := Dict.empty }

end MemoryService

def serverAfter (mutations : List Mutation) :
    PlacementService RingPlacement InProcessBytes Empty WeightedLRU :=
  let n := run Node.mutate (Node.create (Config.default "n0" 100)) mutations
  { view := { node := n, region := "", cluster := none, replicaCount := 0, gpuLoad := 0 }
    policy := .ring
    memory := some { MemoryService.windowService [] with node := n }
    shared := fun m hm => by rw [← Option.mem_some_iff.mp hm] }

def storesWindow (f : Fragment) : Mutation :=
  .store f true Caller.internal 0 0

theorem serverAfter_sound (mutations : List Mutation) : (serverAfter mutations).Sound := by
  have hrun := throughout_of_step (fun n => n.Invariant ∧ n.Registered)
    (fun (n : Node InProcessBytes Empty WeightedLRU) m h =>
      ⟨Node.mutate_invariant h.left m, Node.mutate_registered h.left h.right m⟩)
    (s := Node.create (Config.default "n0" 100))
    ⟨Node.create_invariant _, Node.create_registered rfl⟩ mutations mutations
    (List.prefix_refl mutations)
  exact
    { consistent := hrun.left.toConsistent
      wellBuilt := hrun.right.wellBuilt
      covers := fun m hm handle hashes hget => by
        rw [← Option.mem_some_iff.mp hm] at hget
        cases hget }

theorem serverAfter_differs {t : String} (hother : f.tenantId ≠ t)
    (hpublic : f.tenantId ≠ defaultTenant)
    (hid : (serverAfter [storesWindow f, .removeFragment f.key]).view.node.nodeId =
      (serverAfter [storesWindow f]).view.node.nodeId)
    (hindex : (serverAfter [storesWindow f, .removeFragment f.key]).view.node.indexSystem =
      (serverAfter [storesWindow f]).view.node.indexSystem)
    (hstored : (serverAfter [storesWindow f]).view.node.fragments.entries = [(f.key, f)])
    (hremoved : (serverAfter [storesWindow f,
      .removeFragment f.key]).view.node.fragments.entries = []) :
    PlacementService.DiffersInOthers t (serverAfter [storesWindow f])
      (serverAfter [storesWindow f, .removeFragment f.key]) where
  node :=
    { nodeId := hid
      indexSystem := hindex
      fragments := fun k g hg => by
        rw [Dict.get?_eq_some_iff, Dict.get?_eq_some_iff, hstored, hremoved,
          List.mem_singleton]
        refine ⟨fun hmem => absurd hmem List.not_mem_nil, fun hsame => ?_⟩
        cases hsame
        rcases hg with hg | hg
        · exact absurd hg hother
        · exact absurd hg hpublic }
  region := rfl
  cluster := rfl
  replicaCount := rfl
  gpuLoad := rfl
  policy := rfl
  remembered := rfl

theorem strayWindow_sameSources :
    PlacementService.SameSources [] (serverAfter [storesWindow strayWindow])
      (serverAfter [storesWindow strayWindow, .removeFragment "b:h"]) := by
  intro window _ _
  have hne : ¬ letters window ∈ ["b:h", "h"] := by
    intro hmem
    have hletter : 'h' ∈ (letters window).toList := by
      revert hmem
      generalize letters window = hash
      revert hash
      decide
    exact absurd (mem_letters hletter) (by decide)
  have habsent : forall n : Node InProcessBytes Empty WeightedLRU,
      n.fragments.keys ⊆ ["b:h", "h"] -> n.table.tenantKeys.keys ⊆ ["b:h", "h"] ->
        n.locate (letters window) Caller.internal = none := by
    intro n hkeys hcopies
    exact locate_internal_of_absent (letters_plain window) (fun hmem => hne (hkeys hmem))
      (fun hmem => hne (hcopies hmem))
  rw [PlacementService.source_of_single rfl, PlacementService.source_of_single rfl,
    show TokenHash.tokenHash window = letters window from rfl,
    habsent _ (by decide) (by decide), habsent _ (by decide) (by decide)]
  rfl

theorem strayWindow_isolated :
    PlacementService.DiffersInOthers "acme" (serverAfter [storesWindow strayWindow])
        (serverAfter [storesWindow strayWindow, .removeFragment "b:h"]) ∧
      (forall tokens modelId,
        (serverAfter [storesWindow strayWindow, .removeFragment "b:h"]).cachedPrefix tokens
            modelId (Node.member "acme") [] 0 0 0 =
          (serverAfter [storesWindow strayWindow]).cachedPrefix tokens modelId
            (Node.member "acme") [] 0 0 0 ∧
        (tokens ≠ [] -> forall contentHash,
          (serverAfter [storesWindow strayWindow, .removeFragment "b:h"]).routeFragments
              contentHash tokens modelId (Node.member "acme") [] 0 0 0 =
            (serverAfter [storesWindow strayWindow]).routeFragments contentHash tokens
              modelId (Node.member "acme") [] 0 0 0)) := by
  have hdiffers : PlacementService.DiffersInOthers "acme"
      (serverAfter [storesWindow strayWindow])
      (serverAfter [storesWindow strayWindow, .removeFragment "b:h"]) :=
    serverAfter_differs (by decide) (by decide) rfl rfl (by decide) (by decide)
  exact ⟨hdiffers, (PlacementService.routing_isolated_iff
    hdiffers (serverAfter_sound _) (serverAfter_sound _) rfl rfl [] 0 0 0).mpr
      strayWindow_sameSources⟩

theorem otherWindow_not_isolated :
    PlacementService.DiffersInOthers "acme" (serverAfter [storesWindow otherWindow])
        (serverAfter [storesWindow otherWindow, .removeFragment "b:a"]) ∧
      (serverAfter [storesWindow otherWindow]).cachedPrefix [0] "model"
        (Node.member "acme") [] 0 0 0 =
          .ok (1, [{ contentHash := "a", nodeId := "n0", url := none }]) ∧
      (serverAfter [storesWindow otherWindow, .removeFragment "b:a"]).cachedPrefix [0] "model"
        (Node.member "acme") [] 0 0 0 = .ok (0, []) :=
  ⟨serverAfter_differs (by decide) (by decide) rfl rfl (by decide) (by decide),
    by decide +kernel, by decide +kernel⟩

end Samples

end Services
end Membrane
