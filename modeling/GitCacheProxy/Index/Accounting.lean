import GitCacheProxy.Index.Basic

/-!
# Byte accounting

Any sequence of calls on an index that was built from a scan with distinct
names, as long as the tracked sizes together fit in 64 bits.  The total is then
exactly the sum of the tracked sizes: modulo 2^64 it always is, by the drift
lemmas, and the sum being small makes the two words the same number.  Everything
else about the total follows from that: each subtraction takes away a summand.
-/

namespace GitCacheProxy.Index

/-- The calls that the request path and the background task make on the index. -/
inductive Op where
  | touch (name : Text)
  | markChanged (name : Text)
  | recordBlob (key : Text) (size : UInt64)
  | setSize (name : Text) (size : UInt64)
  | takeDirty
  | takeVictims
  | dropMissing (missing : List Text)
  deriving DecidableEq

namespace CacheIndex

/-- What a call does to the index. -/
def apply (index : CacheIndex) : Op → CacheIndex
  | .touch name => index.touch name
  | .markChanged name => index.markChanged name
  | .recordBlob key size => index.recordBlob key size
  | .setSize name size => index.setSize name size
  | .takeDirty => index.takeDirty
  | .takeVictims => index.takeVictims.1
  | .dropMissing missing => index.dropMissing missing

/-- A sequence of calls. -/
def run (index : CacheIndex) (ops : List Op) : CacheIndex := ops.foldl apply index

/-- The tracked sizes, added up as numbers. -/
def trackedBytes (index : CacheIndex) : ℕ := index.inner.cache.weigh UInt64.toNat

/-- All running sums of a sequence of calls fit in 64 bits. -/
def Fits (index : CacheIndex) (ops : List Op) : Prop :=
  ∀ before, before <+: ops → (index.run before).trackedBytes < 2 ^ 64

end CacheIndex

/-- The subtractions from the total in the loop of `take_victims`: what is taken from what. -/
def popSubtractions (maxBytes : UInt64) : ℕ → Inner → List (UInt64 × UInt64)
  | 0, _ => []
  | fuel + 1, inner =>
      if inner.total > maxBytes then
        match inner.cache.popLru with
        | none => []
        | some ((_, size), rest) =>
            (inner.total, size) :: popSubtractions maxBytes fuel
              { inner with cache := rest, total := inner.total - size }
      else []

/-- The subtractions in the drop phase of `reconcile_missing`. -/
def dropSubtractions : List Text → Inner → List (UInt64 × UInt64)
  | [], _ => []
  | name :: rest, inner =>
      if name ∈ inner.dirty then dropSubtractions rest (dropOne inner name)
      else
        match inner.cache.peek name with
        | none => dropSubtractions rest (dropOne inner name)
        | some size => (inner.total, size) :: dropSubtractions rest (dropOne inner name)

/-- Every subtraction from the total that a call performs. -/
def CacheIndex.subtractions (index : CacheIndex) : Op → List (UInt64 × UInt64)
  | .recordBlob key _ => [(index.inner.total, (index.inner.cache.peek key).getD 0)]
  | .setSize name _ =>
      match index.inner.cache.peek name with
      | none => []
      | some old => [(index.inner.total, old)]
  | .takeVictims => popSubtractions index.maxBytes index.inner.cache.len index.inner
  | .dropMissing missing => dropSubtractions missing index.inner
  | _ => []

/-! ## The total is the sum -/

/-- The total is the sum of the tracked sizes. -/
def Inner.Balanced (inner : Inner) : Prop := inner.total.toNat = inner.cache.weigh UInt64.toNat

theorem toNat_weigh (cache : LruCache Text UInt64) :
    (cache.weigh id).toNat = cache.weigh UInt64.toNat % 2 ^ 64 := by
  simp only [LruCache.weigh, id_eq]
  induction cache.entries with
  | nil => rfl
  | cons entry rest ih =>
      simp only [List.map_cons, List.sum_cons, UInt64.toNat_add, ih]
      omega

theorem Inner.balanced_of_drift {inner : Inner} (exact : inner.drift = 0)
    (fits : inner.cache.weigh UInt64.toNat < 2 ^ 64) : inner.Balanced := by
  have total : inner.total = inner.cache.weigh id := sub_eq_zero.mp exact
  rw [Inner.Balanced, total, toNat_weigh, Nat.mod_eq_of_lt fits]

theorem CacheIndex.drift_apply (index : CacheIndex) (op : Op) :
    (index.apply op).inner.drift = index.inner.drift := by
  cases op with
  | touch name => exact index.drift_touch name
  | markChanged name => exact index.drift_markChanged name
  | recordBlob key size => exact index.drift_recordBlob key size
  | setSize name size => exact index.drift_setSize name size
  | takeDirty => rfl
  | takeVictims => exact index.drift_takeVictims
  | dropMissing missing => exact index.drift_dropMissing missing

theorem CacheIndex.drift_run (index : CacheIndex) (ops : List Op) :
    (index.run ops).inner.drift = index.inner.drift := by
  induction ops generalizing index with
  | nil => rfl
  | cons op rest ih => exact (ih (index.apply op)).trans (index.drift_apply op)

/-! ## Subtractions take away summands -/

theorem Inner.Balanced.le_total {inner : Inner} (balanced : inner.Balanced) {name : Text}
    {size : UInt64} (tracked : inner.cache.peek name = some size) : size ≤ inner.total := by
  have parts := LruCache.weigh_eq_add_pop UInt64.toNat inner.cache name
  rw [tracked, Option.elim_some] at parts
  rw [UInt64.le_iff_toNat_le, balanced, parts]
  omega

/-- Taking out an entry along with its size keeps the balance. -/
theorem Inner.Balanced.sub {inner : Inner} (balanced : inner.Balanced) {name : Text}
    {size : UInt64} (tracked : inner.cache.peek name = some size)
    {rest : LruCache Text UInt64}
    (parts : inner.cache.weigh UInt64.toNat = rest.weigh UInt64.toNat + size.toNat) :
    ({ inner with cache := rest, total := inner.total - size } : Inner).Balanced := by
  have small := balanced.le_total tracked
  simp only [Inner.Balanced] at balanced ⊢
  rw [UInt64.toNat_sub_of_le _ _ small, balanced, parts]
  omega

theorem Inner.Balanced.dropOne {inner : Inner} (balanced : inner.Balanced) (name : Text) :
    (dropOne inner name).Balanced := by
  unfold Index.dropOne
  split
  · exact balanced
  split
  · exact balanced
  · rename_i size tracked
    refine balanced.sub tracked ?_
    rw [LruCache.weigh_eq_add_pop UInt64.toNat _ name, tracked]
    exact add_comm _ _

theorem sub_le_of_mem_popSubtractions {maxBytes : UInt64} {fuel : ℕ} {inner : Inner}
    (balanced : inner.Balanced) {taken : UInt64 × UInt64}
    (takenMem : taken ∈ popSubtractions maxBytes fuel inner) : taken.2 ≤ taken.1 := by
  induction fuel generalizing inner with
  | zero => cases takenMem
  | succ fuel ih =>
      unfold popSubtractions at takenMem
      split at takenMem
      · split at takenMem
        · cases takenMem
        · rename_i name size rest popped
          have tracked := (LruCache.peek_of_popLru popped).1
          rcases List.mem_cons.mp takenMem with rfl | later
          · exact balanced.le_total tracked
          · exact ih (balanced.sub tracked (LruCache.weigh_of_popLru _ popped)) later
      · cases takenMem

theorem sub_le_of_mem_dropSubtractions {missing : List Text} {inner : Inner}
    (balanced : inner.Balanced) {taken : UInt64 × UInt64}
    (takenMem : taken ∈ dropSubtractions missing inner) : taken.2 ≤ taken.1 := by
  induction missing generalizing inner with
  | nil => cases takenMem
  | cons name rest ih =>
      unfold dropSubtractions at takenMem
      split at takenMem
      · exact ih (balanced.dropOne name) takenMem
      split at takenMem
      · exact ih (balanced.dropOne name) takenMem
      · rename_i size tracked
        rcases List.mem_cons.mp takenMem with rfl | later
        · exact balanced.le_total tracked
        · exact ih (balanced.dropOne name) later

theorem sub_le_of_mem_subtractions {index : CacheIndex} (balanced : index.inner.Balanced)
    {op : Op} {taken : UInt64 × UInt64} (takenMem : taken ∈ index.subtractions op) :
    taken.2 ≤ taken.1 := by
  cases op with
  | recordBlob key size =>
      rcases List.mem_singleton.mp takenMem with rfl
      cases tracked : index.inner.cache.peek key with
      | none => simp
      | some old => exact balanced.le_total tracked
  | setSize name size =>
      simp only [CacheIndex.subtractions] at takenMem
      split at takenMem
      · cases takenMem
      · rename_i old tracked
        rcases List.mem_singleton.mp takenMem with rfl
        exact balanced.le_total tracked
  | takeVictims => exact sub_le_of_mem_popSubtractions balanced takenMem
  | dropMissing missing => exact sub_le_of_mem_dropSubtractions balanced takenMem
  | _ => cases takenMem

/-! ## The gauges -/

/-- The gauges show what the lock guards. -/
def CacheIndex.GaugesSet (index : CacheIndex) : Prop :=
  index.gauges = setCacheSize index.inner.total index.inner.cache.len

theorem CacheIndex.GaugesSet.apply {index : CacheIndex} (shown : index.GaugesSet) (op : Op) :
    (index.apply op).GaugesSet := by
  cases op with
  | touch name =>
      simp only [GaugesSet, CacheIndex.apply, touch, LruCache.len_eq_weigh,
        LruCache.weigh_promote] at shown ⊢
      exact shown
  | markChanged name => rfl
  | recordBlob key size => rfl
  | setSize name size =>
      simp only [CacheIndex.apply, setSize]
      split
      · exact shown
      · rfl
  | takeDirty => exact shown
  | takeVictims => rfl
  | dropMissing missing =>
      simp only [CacheIndex.apply, dropMissing]
      split
      · exact shown
      · rfl

theorem CacheIndex.GaugesSet.run {index : CacheIndex} (shown : index.GaugesSet)
    (ops : List Op) : (index.run ops).GaugesSet := by
  induction ops generalizing index with
  | nil => exact shown
  | cons op rest ih => exact ih (shown.apply op)

theorem toInt_toInt64 {word : UInt64} (small : word.toNat < 2 ^ 63) :
    word.toInt64.toInt = word.toNat := by
  have signed : word.toInt64.toInt = word.toBitVec.toInt := rfl
  rw [signed, BitVec.toInt_eq_toNat_of_lt]
  · rfl
  · have unsigned : word.toBitVec.toNat = word.toNat := rfl
    omega

/-- While both numbers are below 2^63 the gauges show them as they are. -/
theorem CacheIndex.GaugesSet.toInt {index : CacheIndex} (shown : index.GaugesSet) :
    (index.inner.total.toNat < 2 ^ 63 →
      index.gauges.cacheBytes.toInt = index.inner.total.toNat) ∧
    (index.inner.cache.len < 2 ^ 63 →
      index.gauges.cacheMirrors.toInt = index.inner.cache.len) := by
  rw [shown]
  refine ⟨toInt_toInt64, fun small => ?_⟩
  have exact : (UInt64.ofNat index.inner.cache.len).toNat = index.inner.cache.len := by
    rw [UInt64.toNat_ofNat']
    omega
  rw [← exact] at small
  exact (toInt_toInt64 small).trans (by rw [exact])

/-! ## Main results -/

theorem CacheIndex.balanced_run {mirrors blobs : List Scanned} {maxBytes : UInt64}
    (distinct : ((mirrors ++ blobs).map Scanned.name).Nodup) {ops : List Op}
    (fits : (new mirrors blobs maxBytes).Fits ops) :
    ((new mirrors blobs maxBytes).run ops).inner.Balanced := by
  apply Inner.balanced_of_drift
  · rw [drift_run, drift_new_of_distinct maxBytes distinct]
  · exact fits ops (List.prefix_refl ops)

/-- Byte accounting in every state that a sequence of calls reaches. -/
theorem byte_accounting (mirrors blobs : List Scanned) (maxBytes : UInt64)
    (distinct : ((mirrors ++ blobs).map Scanned.name).Nodup) (ops : List Op)
    (fits : (CacheIndex.new mirrors blobs maxBytes).Fits ops) :
    let index := (CacheIndex.new mirrors blobs maxBytes).run ops
    index.inner.total.toNat = index.trackedBytes ∧
      (∀ op, ∀ taken ∈ index.subtractions op, taken.2 ≤ taken.1) ∧
      index.inner.cache.keys.Nodup ∧
      (∀ name size, name ∉ index.inner.cache.keys → index.setSize name size = index) ∧
      index.gauges = setCacheSize index.inner.total index.inner.cache.len ∧
      (index.inner.total.toNat < 2 ^ 63 →
        index.gauges.cacheBytes.toInt = index.inner.total.toNat) ∧
      (index.inner.cache.len < 2 ^ 63 →
        index.gauges.cacheMirrors.toInt = index.inner.cache.len) := by
  intro index
  have balanced : index.inner.Balanced := CacheIndex.balanced_run distinct fits
  have fresh : (CacheIndex.new mirrors blobs maxBytes).GaugesSet := rfl
  have shown : index.GaugesSet := fresh.run ops
  refine ⟨balanced, ?_, index.inner.cache.nodup, ?_, shown, shown.toInt⟩
  · intro op taken takenMem
    exact sub_le_of_mem_subtractions balanced takenMem
  · intro name size untracked
    rw [LruCache.mem_keys_iff, not_not] at untracked
    simp [CacheIndex.setSize, untracked]

/-- Two scanned entries, one measured again and one evicted. -/
theorem byte_accounting_of_two_entries :
    let scan := [⟨['a'], 5, 1⟩, ⟨['b'], 7, 0⟩]
    let ops := [.markChanged ['a'], .setSize ['a'] 9, .takeVictims]
    let index := (CacheIndex.new scan [] 10).run ops
    (scan.map Scanned.name).Nodup ∧ (CacheIndex.new scan [] 10).Fits ops ∧
      index.inner.total.toNat = index.trackedBytes := by
  intro scan ops index
  have distinct : ((scan ++ []).map Scanned.name).Nodup := by decide
  have fits : (CacheIndex.new scan [] 10).Fits ops := by
    intro before shorter
    rw [← List.mem_inits] at shorter
    revert before
    decide
  exact ⟨by decide, fits, (byte_accounting scan [] 10 distinct ops fits).1⟩

/-- A cache of 2^63 bytes fits in the total but not in the gauge, which goes negative. -/
theorem gauge_of_two_pow_63 :
    let index := CacheIndex.new [] [] 0
    let ops := [.recordBlob ['k'] 0x8000000000000000]
    (([] : List Scanned).map Scanned.name).Nodup ∧ index.Fits ops ∧
      (index.run ops).gauges.cacheBytes.toInt ≠ (index.run ops).inner.total.toNat := by
  intro index ops
  refine ⟨by decide, ?_, by decide⟩
  intro before shorter
  rw [← List.mem_inits] at shorter
  revert before
  decide

end GitCacheProxy.Index
