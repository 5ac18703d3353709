import WlanBridge.Histories
import WlanBridge.UthashInvariant
import Mathlib.Algebra.BigOperators.Group.List.Basic

/-! The widths of a table. Its numbers are `unsigned` in the source, where they may wrap round:
with fewer than 2^32 buckets, and not too many elements for the threshold of growth, none of them
does, and a table is a map from its keys. -/
namespace WlanBridge

open Links

/-- No `unsigned` of the table has wrapped round, nor have the two products that its counts
are compared with. -/
structure UTHashTable.Unwrapped (tbl : UTHashTable) : Prop where
  numBuckets : tbl.numBuckets < 2 ^ 32
  log2NumBuckets : tbl.log2NumBuckets < 32
  numItems : tbl.numItems < 2 ^ 32
  idealChainMaxlen : tbl.idealChainMaxlen < 2 ^ 32
  nonidealItems : tbl.nonidealItems < 2 ^ 32
  ineffExpands : tbl.ineffExpands < 2 ^ 32
  buckets : ∀ bucket ∈ tbl.buckets, bucket.count < 2 ^ 32 ∧
    (bucket.expandMult + 1) * HASH_BKT_CAPACITY_THRESH < 2 ^ 32 ∧ bucket.expandMult * tbl.idealChainMaxlen < 2 ^ 32

/-- The multiplier keeps behind the count, and so does its product with the ideal length. -/
def UTHashBucket.Paced (ideal : Nat) (bucket : UTHashBucket) : Prop :=
  bucket.expandMult ≤ bucket.count ∧ bucket.expandMult * ideal ≤ bucket.count + ideal

def counts (buckets : List UTHashBucket) : Nat := (buckets.map UTHashBucket.count).sum

structure Expansion.Tallied (ideal : Nat) (e : Expansion) : Prop where
  buckets : ∀ bucket ∈ e.newBuckets, bucket.Paced ideal
  nonideal : e.nonidealItems ≤ counts e.newBuckets

structure UTHashTable.Tallied (tbl : UTHashTable) : Prop where
  buckets : ∀ bucket ∈ tbl.buckets, bucket.Paced tbl.idealChainMaxlen
  nonideal : tbl.nonidealItems ≤ counts tbl.buckets
  ideal : tbl.idealChainMaxlen ≤ tbl.numItems + 1
  ineff : tbl.ineffExpands ≤ 2
  growing : tbl.noexpand = false → tbl.ineffExpands ≤ 1

variable {κ : Type} {t t' : UTHash κ}

theorem counts_set {buckets : List UTHashBucket} (cell : buckets[i]? = some old) (new : UTHashBucket)
    (counted : new.count = old.count + 1) : counts (buckets.set i new) = counts buckets + 1 := by
  induction buckets generalizing i with
  | nil => cases cell
  | cons bucket rest ih =>
    cases i with
    | zero =>
      obtain rfl := Option.some.inj cell
      simp only [counts, List.set_cons_zero, List.map_cons, List.sum_cons, counted]
      omega
    | succ i =>
      have later := ih cell
      simp only [counts, List.set_cons_succ, List.map_cons, List.sum_cons] at later ⊢
      omega

theorem paced_set {buckets : List UTHashBucket} (paced : ∀ bucket ∈ buckets, bucket.Paced ideal) (i : Nat)
    (new : UTHashBucket) (fits : new.Paced ideal) : ∀ bucket ∈ buckets.set i new, bucket.Paced ideal := by
  intro bucket member
  rcases List.mem_or_eq_of_mem_set member with old | rfl
  · exact paced bucket old
  · exact fits

theorem paced_fresh (size ideal : Nat) : ∀ bucket ∈ List.replicate size (⟨none, 0, 0⟩ : UTHashBucket), bucket.Paced ideal := by
  intro bucket member
  obtain ⟨-, rfl⟩ := List.mem_replicate.mp member
  exact ⟨Nat.le_refl 0, by simp⟩

theorem counted_paced {bucket : UTHashBucket} (paced : bucket.Paced ideal) : (bucket.counted ideal).Paced ideal := by
  obtain ⟨behind, product⟩ := paced
  unfold UTHashBucket.counted
  dsimp only
  split
  · rename_i long
    refine ⟨Nat.succ_le_succ behind, ?_⟩
    rw [Nat.succ_mul]
    exact Nat.add_le_add_right (Nat.le_of_lt long.2) ideal
  · exact ⟨Nat.le_succ_of_le behind, Nat.le_trans product (by dsimp only; omega)⟩

theorem expandItem_tallied {e e' : Expansion} (tallied : e.Tallied ideal)
    (moved : expandItem ideal bkt thh e = some e') : e'.Tallied ideal := by
  obtain ⟨bucket, cell, rfl⟩ := Option.map_eq_some_iff.mp moved
  have count := counted_count ideal bucket
  have total := counts_set cell { bucket.counted ideal with hhHead := some thh } count
  have nonideal := tallied.nonideal
  refine ⟨paced_set tallied.buckets bkt _ (counted_paced (tallied.buckets bucket (List.mem_of_getElem? cell))), ?_⟩
  dsimp only
  rw [total]
  split <;> omega

theorem expandBucket_tallied {e e' : Expansion} (tallied : e.Tallied t.tbl.idealChain)
    (moved : expandBucket fuel t e i = some e') : e'.Tallied t.tbl.idealChain := by
  obtain ⟨bucket, -, left⟩ := Option.bind_eq_some_iff.mp moved
  refine walk_invariant (Expansion.Tallied t.tbl.idealChain) (fun thh e next e' held turned => ?_) tallied left
  obtain ⟨m, item, same⟩ := Option.map_eq_some_iff.mp turned
  obtain ⟨-, rfl⟩ := Prod.mk.inj same
  exact expandItem_tallied held item

theorem idealChain_le (tbl : UTHashTable) : tbl.idealChain ≤ tbl.numItems + 1 := by
  have shifted := Nat.shiftRight_le tbl.numItems (tbl.log2NumBuckets + 1)
  unfold UTHashTable.idealChain
  split <;> omega

theorem hashExpandBuckets_tallied (few : t.tbl.ineffExpands ≤ 1)
    (grown : hashExpandBuckets fuel t = some t') :
    t'.tbl.Tallied ∧ t'.head = t.head ∧ t.tbl.numBuckets ≤ t'.tbl.numBuckets := by
  obtain ⟨e, moved, rfl⟩ := Option.map_eq_some_iff.mp grown
  have tallied : e.Tallied t.tbl.idealChain :=
    Interleaving.run_invariant (Expansion.Tallied t.tbl.idealChain)
      (fun _ _ _ held turned => expandBucket_tallied held turned) ⟨paced_fresh _ _, Nat.zero_le _⟩ _ moved
  refine ⟨⟨tallied.buckets, tallied.nonideal, idealChain_le t.tbl, ?_, ?_⟩, rfl, Nat.le_mul_of_pos_right _ (by decide)⟩
  · dsimp only [UTHash.expanded]
    split <;> omega
  · intro growing
    simp only [UTHash.expanded, Bool.or_eq_false_iff, decide_eq_false_iff_not, Nat.not_lt] at growing ⊢
    exact growing.2

theorem hashAddToBkt_tallied (tallied : t.tbl.Tallied) (added : hashAddToBkt fuel t bkt add = some t') :
    t'.tbl.Tallied ∧ t'.head = t.head ∧ t.tbl.numBuckets ≤ t'.tbl.numBuckets := by
  obtain ⟨bucket, cell, rest⟩ := Option.bind_eq_some_iff.mp added
  obtain ⟨behind, product⟩ := tallied.buckets bucket (List.mem_of_getElem? cell)
  dsimp only at rest
  split at rest
  · rename_i full
    have grown := fun few => hashExpandBuckets_tallied few rest
    exact grown (tallied.growing (Bool.eq_false_iff.mpr full.2))
  · obtain rfl := Option.some.inj rest
    have total := counts_set cell { bucket with count := bucket.count + 1, hhHead := some add } rfl
    refine ⟨⟨?_, ?_, tallied.ideal, tallied.ineff, tallied.growing⟩, rfl, Nat.le_refl _⟩
    · exact paced_set tallied.buckets bkt _ ⟨Nat.le_succ_of_le behind, Nat.le_trans product (by dsimp only; omega)⟩
    · exact Nat.le_trans tallied.nonideal (by dsimp only; rw [total]; exact Nat.le_succ _)

theorem hashMakeTable_tallied (head : Nat) : (hashMakeTable head).Tallied :=
  ⟨paced_fresh _ _, Nat.zero_le _, Nat.zero_le _, Nat.zero_le _, fun _ => Nat.zero_le _⟩

theorem hashMakeTable_unwrapped : (hashMakeTable 0).Unwrapped := by
  refine ⟨by decide, by decide, by decide, by decide, by decide, by decide, fun bucket member => ?_⟩
  obtain ⟨-, rfl⟩ := List.mem_replicate.mp member
  exact ⟨by decide, by decide, by decide⟩

structure UTHash.Tallied (t : UTHash κ) : Prop where
  tbl : t.tbl.Tallied
  fresh : t.head = none → t.tbl.numBuckets = HASH_INITIAL_NUM_BUCKETS

theorem hashAddToTable_tallied (tallied : t.tbl.Tallied) (some_ : t.head = some x)
    (added : hashAddToTable fuel t hashval add = some t') :
    t'.Tallied ∧ t.tbl.numBuckets ≤ t'.tbl.numBuckets := by
  have more : ({ t.tbl with numItems := t.tbl.numItems + 1 } : UTHashTable).Tallied :=
    ⟨tallied.buckets, tallied.nonideal, Nat.le_succ_of_le tallied.ideal, tallied.ineff, tallied.growing⟩
  obtain ⟨kept, head, grown⟩ := hashAddToBkt_tallied (t := { t with tbl := { t.tbl with numItems := t.tbl.numItems + 1 } })
    more added
  refine ⟨⟨kept, fun none_ => ?_⟩, grown⟩
  rw [head, some_] at none_
  cases none_

theorem hashAdd_tallied {hash : κ → U32} (tallied : t.Tallied) (added : hashAdd hash fuel t add key = some t') :
    t'.Tallied ∧ t.tbl.numBuckets ≤ t'.tbl.numBuckets := by
  cases head : t.head with
  | none =>
    simp only [hashAdd, head] at added
    obtain ⟨kept, grown⟩ := hashAddToTable_tallied (hashMakeTable_tallied add) rfl added
    exact ⟨kept, (tallied.fresh head).trans_le grown⟩
  | some first =>
    simp only [hashAdd, head] at added
    have held := tallied.tbl
    have appended : ({ t.tbl with tail := add } : UTHashTable).Tallied :=
      ⟨held.buckets, held.nonideal, held.ideal, held.ineff, held.growing⟩
    have next := fun tallied => hashAddToTable_tallied tallied rfl added
    exact next appended

theorem counts_eq {hash : κ → U32} (holds : t.Holds hash xs) (filled : xs ≠ []) : counts t.tbl.buckets = t.tbl.numItems := by
  obtain ⟨-, items, order, perm, chained⟩ := holds.table filled
  have each : t.tbl.buckets.map UTHashBucket.count =
      (List.range t.tbl.numBuckets).map fun i => (chainOf t.bktOf order i).length := by
    apply List.ext_getElem
    · simp [chained.length]
    · intro i inside _
      rw [List.length_map] at inside
      simp only [List.getElem_map, List.getElem_range]
      exact (chained.buckets i _ (List.getElem?_eq_getElem inside)).2.1
  have all := (byBucket_perm chained.distinct fun x _ => chained.bktOf_lt x).length_eq
  rw [byBucket, List.length_flatMap] at all
  rw [counts, each, all, perm.length_eq, items]

/-- The numbers of a table fit when it has few enough buckets and elements. -/
theorem UTHash.Holds.unwrapped {hash : κ → U32} (holds : t.Holds hash xs) (tallied : t.Tallied)
    (few : (xs.length + 1) * HASH_BKT_CAPACITY_THRESH < 2 ^ 32) (small : t.tbl.numBuckets < 2 ^ 32) (filled : xs ≠ []) :
    t.tbl.Unwrapped := by
  obtain ⟨-, items, order, perm, chained⟩ := holds.table filled
  have total := counts_eq holds filled
  rw [show HASH_BKT_CAPACITY_THRESH = 10 from rfl] at few
  have nonideal := tallied.tbl.nonideal
  have ideal := tallied.tbl.ideal
  have ineff := tallied.tbl.ineff
  refine ⟨small, ?_, by omega, by omega, by omega, by omega, fun bucket member => ?_⟩
  · rw [chained.size] at small
    exact (Nat.pow_lt_pow_iff_right (by decide)).mp small
  · obtain ⟨i, cell⟩ := List.getElem?_of_mem member
    obtain ⟨-, count, -⟩ := chained.buckets i bucket cell
    have part : (chainOf t.bktOf order i).length ≤ order.length := by
      rw [chainOf, List.length_reverse]
      exact List.length_filter_le _ _
    have all := perm.length_eq
    obtain ⟨behind, product⟩ := tallied.tbl.buckets bucket member
    refine ⟨by omega, ?_, by omega⟩
    rw [show HASH_BKT_CAPACITY_THRESH = 10 from rfl]
    omega

section Runs
variable [DecidableEq κ] {keys : List κ}

theorem findOrAdd_tallied {hash : κ → U32} {s s' : UTHash κ × Nat} (tallied : s.1.Tallied)
    (next : findOrAdd hash fuel s key = some s') : s'.1.Tallied ∧ s.1.tbl.numBuckets ≤ s'.1.tbl.numBuckets := by
  obtain ⟨found, -, rest⟩ := Option.bind_eq_some_iff.mp next
  cases found with
  | some x =>
    obtain rfl := Option.some.inj rest
    exact ⟨tallied, Nat.le_refl _⟩
  | none =>
    obtain ⟨t, added, rfl⟩ := Option.map_eq_some_iff.mp rest
    exact hashAdd_tallied tallied added

theorem run_tallied {hash : κ → U32} {s s' : UTHash κ × Nat} (tallied : s.1.Tallied)
    (ran : keys.foldlM (findOrAdd hash fuel) s = some s') : s'.1.Tallied ∧ s.1.tbl.numBuckets ≤ s'.1.tbl.numBuckets := by
  refine Interleaving.run_invariant (fun s' => s'.1.Tallied ∧ s.1.tbl.numBuckets ≤ s'.1.tbl.numBuckets)
    (fun m key n held next => ?_) ⟨tallied, Nat.le_refl _⟩ keys ran
  obtain ⟨kept, grown⟩ := findOrAdd_tallied held.1 next
  exact ⟨kept, Nat.le_trans held.2 grown⟩

/-- For every hash function, and through every growth of a table that stays below 2^32 buckets: no
number of it wraps round on the way, the integrity check passes, and a lookup answers with the
element of the key or with null. -/
theorem hash_is_map [Inhabited κ] (hash : κ → U32) (keys : List κ) (extra : Nat)
    (few : (keys.eraseDups.length + 1) * HASH_BKT_CAPACITY_THRESH < 2 ^ 32)
    (small : ∀ t n, keys.foldlM (findOrAdd hash (keys.eraseDups.length + extra)) (.empty, 0) = some (t, n) →
      t.tbl.numBuckets < 2 ^ 32) :
    ∃ t : UTHash κ,
      keys.foldlM (findOrAdd hash (keys.eraseDups.length + extra)) (.empty, 0) = some (t, keys.eraseDups.length) ∧
      (∀ before, before <+: keys → ∀ t n,
        before.foldlM (findOrAdd hash (keys.eraseDups.length + extra)) (.empty, 0) = some (t, n) → t.tbl.Unwrapped) ∧
      hashFsck (keys.eraseDups.length + extra) t = some () ∧
      ∀ key, hashFind hash (keys.eraseDups.length + extra) t key = some (keys.eraseDups.idxOf? key) := by
  obtain ⟨t, ran, holds, own, distinct⟩ :=
    findOrAdd_run hash (keys.eraseDups.length + extra) keys (Nat.le_add_right _ _)
  have short : (List.range keys.eraseDups.length).length ≤ keys.eraseDups.length + extra := by
    rw [List.length_range]
    omega
  refine ⟨t, ran, ?_, hashFsck_ok holds short, fun key => ?_⟩
  · rintro before ⟨after, rfl⟩ t' n' earlier
    have whole := ran
    rw [List.foldlM_append, earlier] at ran
    have enough : before.eraseDups.length ≤ (before ++ after).eraseDups.length := by simp [List.eraseDups_append]
    obtain ⟨t₁, same, holds₁, -⟩ := findOrAdd_run hash ((before ++ after).eraseDups.length + extra) before (by omega)
    obtain ⟨rfl, rfl⟩ := Prod.mk.inj (Option.some.inj (earlier.symm.trans same))
    have empty : (UTHash.empty : UTHash κ).Tallied := ⟨hashMakeTable_tallied 0, fun _ => rfl⟩
    have tallied : t'.Tallied := (run_tallied (s := (.empty, 0)) empty earlier).1
    have grown : t'.tbl.numBuckets ≤ t.tbl.numBuckets := (run_tallied (s := (t', before.eraseDups.length)) tallied ran).2
    rcases before with _ | ⟨key, before⟩
    · obtain ⟨rfl, -⟩ := Prod.mk.inj (Option.some.inj earlier)
      exact hashMakeTable_unwrapped
    · refine holds₁.unwrapped tallied ?_ (grown.trans_lt (small t _ whole)) (by simp [List.eraseDups_cons])
      rw [List.length_range]
      exact Nat.lt_of_le_of_lt (Nat.mul_le_mul_right _ (Nat.succ_le_succ enough)) few
  · rw [hashFind_eq holds (by rw [own]; exact distinct) key short, find_range, own]

/-- One bucket for all keys, and one key twice. -/
theorem hash_is_map_twice :
    ∃ t : UTHash Nat, [7, 8, 7].foldlM (findOrAdd (fun _ => 0) 2) (.empty, 0) = some (t, 2) ∧
      hashFind (fun _ => 0) 2 t 8 = some (some 1) ∧ hashFind (fun _ => 0) 2 t 9 = some none := by
  have size : ([7, 8, 7].foldlM (findOrAdd (fun _ => 0) 2) ((.empty : UTHash Nat), 0)).map
      (fun s => s.1.tbl.numBuckets) = some 32 := by decide
  obtain ⟨t, ran, -, -, finds⟩ := hash_is_map (fun _ => 0) [7, 8, 7] 0 (by decide) fun t n ran => by
    have here : [7, 8, 7].foldlM (findOrAdd (fun _ => 0) 2) ((.empty : UTHash Nat), 0) = some (t, n) := ran
    rw [here, Option.map_some, Option.some.injEq] at size
    rw [size]
    decide
  exact ⟨t, ran, finds 8, finds 9⟩

end Runs

end WlanBridge
