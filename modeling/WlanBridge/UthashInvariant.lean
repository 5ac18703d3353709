import WlanBridge.Keyed
import WlanBridge.Uthash
import Mathlib.Algebra.GroupWithZero.Nat
import Mathlib.Data.List.Induction

/-! The invariant of a hash: application order and buckets hold the same elements, each in
the bucket of its hash. Additions keep it through every growth of the table, and by it a
lookup answers as in the list of the elements. -/
namespace WlanBridge

open Links

def chainOf (bkt : Nat → Nat) (order : List Nat) (i : Nat) : List Nat := (order.filter fun x => bkt x = i).reverse

theorem mem_chainOf : x ∈ chainOf bkt order i ↔ x ∈ order ∧ bkt x = i := by simp [chainOf]

theorem chainOf_nodup (distinct : order.Nodup) (i : Nat) : (chainOf bkt order i).Nodup :=
  List.nodup_reverse.mpr (distinct.filter _)

theorem chainOf_push (bkt : Nat → Nat) (order : List Nat) (a i : Nat) :
    chainOf bkt (order ++ [a]) i = if bkt a = i then a :: chainOf bkt order i else chainOf bkt order i := by
  by_cases here : bkt a = i <;> simp [chainOf, List.filter_append, here]

/-- Every bucket has the chain of the elements that belong to it. -/
def Bucketed (hh : Heap Nat) (buckets : List UTHashBucket) (bkt : Nat → Nat) (order : List Nat) : Prop :=
  ∀ i bucket, buckets[i]? = some bucket →
    bucket.hhHead = (chainOf bkt order i).head? ∧ bucket.count = (chainOf bkt order i).length ∧
    Chain hh none (chainOf bkt order i) none

theorem bucketed_nil (hh : Heap Nat) (size : Nat) (bkt : Nat → Nat) :
    Bucketed hh (List.replicate size ⟨none, 0, 0⟩) bkt [] := by
  intro i bucket cell
  have inside := List.mem_of_getElem? cell
  obtain rfl := (List.mem_replicate.mp inside).2
  exact ⟨rfl, rfl, trivial⟩

theorem Bucketed.push {hh : Heap Nat} (held : Bucketed hh buckets bkt order) (distinct : order.Nodup) (fresh : a ∉ order)
    (cell : buckets[bkt a]? = some bucket) (pushed : UTHashBucket) (front : pushed.hhHead = some a)
    (counted : pushed.count = bucket.count + 1) :
    Bucketed (push hh bucket.hhHead a) (buckets.set (bkt a) pushed) bkt (order ++ [a]) := by
  obtain ⟨oldHead, oldCount, oldChain⟩ := held (bkt a) bucket cell
  have absent (i : Nat) : a ∉ chainOf bkt order i := fun member => fresh (mem_chainOf.mp member).1
  intro i other found
  rw [chainOf_push]
  by_cases here : bkt a = i
  · subst here
    have bound : bkt a < buckets.length := (List.getElem?_eq_some_iff.mp cell).1
    obtain rfl : pushed = other := by simpa [bound] using found
    rw [if_pos rfl, oldHead]
    exact ⟨front, by simp [counted, oldCount], push_chain oldChain (chainOf_nodup distinct _) (absent _)⟩
  · rw [List.getElem?_set_ne here] at found
    obtain ⟨otherHead, otherCount, otherChain⟩ := held i other found
    rw [if_neg here]
    refine ⟨otherHead, otherCount, otherChain.frame fun x member => ?_⟩
    rw [oldHead]
    refine push_other hh _ (fun same => absent i (same ▸ member)) fun elsewhere => here ?_
    exact (mem_chainOf.mp elsewhere).2.symm.trans (mem_chainOf.mp member).2

/-- The elements bucket by bucket, as the loops over a table meet them. -/
def byBucket (bkt : Nat → Nat) (order : List Nat) (size : Nat) : List Nat :=
  (List.range size).flatMap (chainOf bkt order)

theorem byBucket_succ (bkt : Nat → Nat) (order : List Nat) (size : Nat) :
    byBucket bkt order (size + 1) = byBucket bkt order size ++ chainOf bkt order size := by
  simp [byBucket, List.range_succ]

theorem mem_byBucket : x ∈ byBucket bkt order size ↔ x ∈ order ∧ bkt x < size := by
  simp only [byBucket, List.mem_flatMap, List.mem_range, mem_chainOf]
  constructor
  · rintro ⟨i, bound, member, rfl⟩
    exact ⟨member, bound⟩
  · rintro ⟨member, bound⟩
    exact ⟨bkt x, bound, member, rfl⟩

theorem byBucket_nodup (bkt : Nat → Nat) (distinct : order.Nodup) (size : Nat) : (byBucket bkt order size).Nodup := by
  induction size with
  | zero => exact List.nodup_nil
  | succ size ih =>
    rw [byBucket_succ]
    refine List.nodup_append.mpr ⟨ih, chainOf_nodup distinct _, ?_⟩
    rintro x early _ late rfl
    exact absurd (mem_chainOf.mp late).2 (Nat.ne_of_lt (mem_byBucket.mp early).2)

theorem byBucket_perm (distinct : order.Nodup) (bound : ∀ x ∈ order, bkt x < size) :
    (byBucket bkt order size).Perm order := by
  refine (List.perm_ext_iff_of_nodup (byBucket_nodup _ distinct _) distinct).mpr fun x => ?_
  rw [mem_byBucket]
  exact ⟨fun member => member.1, fun member => ⟨member, bound x member⟩⟩

theorem hashToBkt_lt (hashv : U32) (lg : Nat) : hashToBkt hashv (2 ^ lg) < 2 ^ lg := by
  rw [hashToBkt, Nat.and_two_pow_sub_one_eq_mod]
  exact Nat.mod_lt _ (Nat.two_pow_pos lg)

theorem counted_count (ideal : Nat) (newbkt : UTHashBucket) : (newbkt.counted ideal).count = newbkt.count + 1 := by
  unfold UTHashBucket.counted
  dsimp only
  split <;> rfl

theorem expandItem_spec {e : Expansion} (held : Bucketed e.hh e.newBuckets bkt order) (distinct : order.Nodup)
    (fresh : a ∉ order) (bound : bkt a < e.newBuckets.length) (ideal : Nat) :
    ∃ e', expandItem ideal (bkt a) a e = some e' ∧ Bucketed e'.hh e'.newBuckets bkt (order ++ [a]) ∧
      e'.newBuckets.length = e.newBuckets.length ∧ ∀ x ∉ order ++ [a], e'.hh x = e.hh x := by
  have cell : e.newBuckets[bkt a]? = some e.newBuckets[bkt a] := List.getElem?_eq_getElem bound
  obtain ⟨front, _, _⟩ := held _ _ cell
  refine ⟨_, by rw [expandItem, cell]; rfl, ?_, ?_, ?_⟩
  · exact held.push distinct fresh cell _ rfl (counted_count ideal _)
  · exact List.length_set
  · intro x outside
    rw [List.mem_append, List.mem_singleton, not_or] at outside
    dsimp only
    rw [front]
    exact push_other e.hh _ outside.2 fun member => outside.1 (mem_chainOf.mp member).1

variable {κ : Type}

def UTHash.bktOf (t : UTHash κ) (x : Nat) : Nat := hashToBkt (t.hashv x) t.tbl.numBuckets

/-- The buckets hold these elements, whatever the order of the application is. -/
structure UTHash.Chained (t : UTHash κ) (order : List Nat) : Prop where
  size : t.tbl.numBuckets = 2 ^ t.tbl.log2NumBuckets
  length : t.tbl.buckets.length = t.tbl.numBuckets
  distinct : order.Nodup
  buckets : Bucketed t.hh t.tbl.buckets t.bktOf order

theorem UTHash.Chained.bktOf_lt {t : UTHash κ} (chained : t.Chained order) (x : Nat) : t.bktOf x < t.tbl.numBuckets := by
  rw [UTHash.bktOf, chained.size]
  exact hashToBkt_lt _ _

structure SameElements (t t' : UTHash κ) : Prop where
  head : t'.head = t.head
  app : t'.app = t.app
  key : t'.key = t.key
  hashv : t'.hashv = t.hashv
  tail : t'.tbl.tail = t.tbl.tail
  numItems : t'.tbl.numItems = t.tbl.numItems

/-- The loop over one old chain: what is left of it still has its links, since a turn
stores only at the element it moves and at elements moved before. -/
theorem expandChain_spec (bkt : Nat → Nat) {hh : Heap Nat} {e : Expansion} (held : Bucketed e.hh e.newBuckets bkt moved)
    (intact : ∀ x ∉ moved, e.hh x = hh x) (linked : Chain hh none chain none) (distinct : (moved ++ chain).Nodup)
    (bound : ∀ x ∈ chain, bkt x < e.newBuckets.length) (ideal : Nat) (enough : chain.length ≤ fuel) :
    ∃ e', walk (fun thh e => let nxt := (e.hh thh).next
        (expandItem ideal (bkt thh) thh e).map fun e => (nxt, e)) fuel chain.head? e = some e' ∧
      Bucketed e'.hh e'.newBuckets bkt (moved ++ chain) ∧ e'.newBuckets.length = e.newBuckets.length ∧
      ∀ x ∉ moved ++ chain, e'.hh x = hh x := by
  refine walk_spec (fun done (e' : Expansion) => Bucketed e'.hh e'.newBuckets bkt (moved ++ done) ∧
    e'.newBuckets.length = e.newBuckets.length ∧ ∀ x ∉ moved ++ done, e'.hh x = hh x) _ ?_ (fun _ last => last) ?_ enough
  · rintro done a rest e' rfl ⟨held', same, intact'⟩
    have split : moved ++ (done ++ a :: rest) = moved ++ done ++ a :: rest := by simp
    rw [split] at distinct
    have parts := List.nodup_append.mp distinct
    have fresh : a ∉ moved ++ done := fun member => parts.2.2 a member a List.mem_cons_self rfl
    have inside : bkt a < e'.newBuckets.length := same ▸ bound a (by simp)
    obtain ⟨e'', ran, held'', same', frame⟩ := expandItem_spec held' parts.1 fresh inside ideal
    have next : (e'.hh a).next = rest.head? := by
      rw [intact' a fresh]
      have here := ((chain_append _ _ done (a :: rest) _).mp linked).2.2.1
      rwa [Option.or_none] at here
    refine ⟨rest.head?, e'', by simp only [ran, next, Option.map_some], Or.inl ⟨rfl, ?_⟩⟩
    rw [← List.append_assoc]
    refine ⟨held'', same'.trans same, fun x outside => ?_⟩
    rw [frame x outside, intact' x fun member => outside (List.mem_append_left _ member)]
  · rw [List.append_nil]
    exact ⟨held, rfl, intact⟩

theorem hashExpandBuckets_spec {t : UTHash κ} (chained : t.Chained order) (enough : order.length ≤ fuel) :
    ∃ t' order', hashExpandBuckets fuel t = some t' ∧ t'.Chained order' ∧ order'.Perm order ∧ SameElements t t' := by
  let bkt' (x : Nat) : Nat := hashToBkt (t.hashv x) (t.tbl.numBuckets * 2)
  have size' : t.tbl.numBuckets * 2 = 2 ^ (t.tbl.log2NumBuckets + 1) := by rw [chained.size, Nat.pow_succ]
  have bound' (x : Nat) : bkt' x < t.tbl.numBuckets * 2 := by
    simp only [bkt', size']
    exact hashToBkt_lt _ _
  let start : Expansion := ⟨t.hh, List.replicate (t.tbl.numBuckets * 2) ⟨none, 0, 0⟩, 0⟩
  have loop : ∀ n ≤ t.tbl.numBuckets, ∃ e, (List.range n).foldlM (expandBucket fuel t) start = some e ∧
      Bucketed e.hh e.newBuckets bkt' (byBucket t.bktOf order n) ∧ e.newBuckets.length = t.tbl.numBuckets * 2 ∧
      ∀ x ∉ byBucket t.bktOf order n, e.hh x = t.hh x := by
    intro n
    induction n with
    | zero => exact fun _ => ⟨start, rfl, bucketed_nil _ _ _, by simp [start], fun _ _ => rfl⟩
    | succ n ih =>
      intro more
      obtain ⟨e, ran, held, same, intact⟩ := ih (by omega)
      have inside : n < t.tbl.buckets.length := by
        have := chained.length
        omega
      have cell : t.tbl.buckets[n]? = some t.tbl.buckets[n] := List.getElem?_eq_getElem inside
      obtain ⟨front, _, linked⟩ := chained.buckets n _ cell
      have distinct := byBucket_nodup t.bktOf chained.distinct (n + 1)
      rw [byBucket_succ] at distinct
      have short : (chainOf t.bktOf order n).length ≤ fuel := by
        rw [chainOf, List.length_reverse]
        exact Nat.le_trans (List.length_filter_le _ _) enough
      obtain ⟨e', moved, held', same', intact'⟩ := expandChain_spec bkt' held intact linked distinct
        (fun x _ => same ▸ bound' x) t.tbl.idealChain short
      have turned : expandBucket fuel t e n = some e' := by
        rw [expandBucket, cell, Option.bind_some, front]
        exact moved
      refine ⟨e', ?_, ?_⟩
      · rw [List.range_succ, List.foldlM_append, ran]
        simp [turned]
      · rw [byBucket_succ]
        exact ⟨held', same'.trans same, intact'⟩
  obtain ⟨e, ran, held, same, _⟩ := loop t.tbl.numBuckets (Nat.le_refl _)
  have order' := byBucket_perm chained.distinct fun x _ => chained.bktOf_lt x
  refine ⟨t.expanded e, _, by rw [hashExpandBuckets, ran]; rfl, ?_, order', ⟨rfl, rfl, rfl, rfl, rfl, rfl⟩⟩
  exact ⟨size', same, byBucket_nodup _ chained.distinct _, held⟩

/-- The tables that the program builds: what a hash with these elements looks like. -/
structure UTHash.Holds (hash : κ → U32) (t : UTHash κ) (xs : List Nat) : Prop where
  head : t.head = xs.head?
  app : Chain t.app none xs none
  hashed : ∀ x ∈ xs, t.hashv x = hash (t.key x)
  distinct : xs.Nodup
  /-- There is a table once there is an element. -/
  table : xs ≠ [] → xs.getLast? = some t.tbl.tail ∧ t.tbl.numItems = xs.length ∧
    ∃ order, order.Perm xs ∧ t.Chained order

theorem UTHash.empty_holds [Inhabited κ] (hash : κ → U32) : (UTHash.empty : UTHash κ).Holds hash [] :=
  ⟨rfl, trivial, fun _ member => absurd member List.not_mem_nil, List.nodup_nil, fun some => absurd rfl some⟩

theorem hashMakeTable_chained (t : UTHash κ) (add : Nat) : ({ t with tbl := hashMakeTable add } : UTHash κ).Chained [] :=
  ⟨rfl, by simp [hashMakeTable], List.nodup_nil, bucketed_nil _ _ _⟩

theorem hashAddToBkt_spec {t : UTHash κ} (chained : t.Chained order) (fresh : add ∉ order) (enough : order.length < fuel) :
    ∃ t' order', hashAddToBkt fuel t (t.bktOf add) add = some t' ∧ t'.Chained order' ∧ order'.Perm (add :: order) ∧
      SameElements t t' := by
  have inside : t.bktOf add < t.tbl.buckets.length := chained.length ▸ chained.bktOf_lt add
  have cell : t.tbl.buckets[t.bktOf add]? = some t.tbl.buckets[t.bktOf add] := List.getElem?_eq_getElem inside
  have shuffled : (order ++ [add]).Perm (add :: order) := List.perm_append_singleton add order
  let pushed : UTHashBucket := { t.tbl.buckets[t.bktOf add] with
    count := t.tbl.buckets[t.bktOf add].count + 1, hhHead := some add }
  let t' : UTHash κ := { t with
    hh := push t.hh t.tbl.buckets[t.bktOf add].hhHead add
    tbl := { t.tbl with buckets := t.tbl.buckets.set (t.bktOf add) pushed } }
  have chained' : t'.Chained (order ++ [add]) := by
    refine ⟨chained.size, by simpa [t'] using chained.length, ?_, ?_⟩
    · exact shuffled.nodup_iff.mpr (List.nodup_cons.mpr ⟨fresh, chained.distinct⟩)
    · exact chained.buckets.push chained.distinct fresh cell pushed rfl rfl
  by_cases full : pushed.count ≥ (pushed.expandMult + 1) * HASH_BKT_CAPACITY_THRESH ∧ ¬t'.tbl.noexpand
  · have room : (order ++ [add]).length ≤ fuel := by simpa using Nat.succ_le_of_lt enough
    obtain ⟨t'', order', grown, chained'', moved, same⟩ := hashExpandBuckets_spec chained' room
    refine ⟨t'', order', ?_, chained'', moved.trans shuffled, same.head, same.app, same.key, same.hashv, same.tail, same.numItems⟩
    rw [hashAddToBkt, cell]
    exact (if_pos full).trans grown
  · refine ⟨t', _, ?_, chained', shuffled, rfl, rfl, rfl, rfl, rfl, rfl⟩
    rw [hashAddToBkt, cell]
    exact if_neg full

theorem UTHash.Chained.frame {t t' : UTHash κ} (chained : t.Chained order) (hh : t'.hh = t.hh)
    (hashv : ∀ x ∈ order, t'.hashv x = t.hashv x) (buckets : t'.tbl.buckets = t.tbl.buckets)
    (numBuckets : t'.tbl.numBuckets = t.tbl.numBuckets) (log2 : t'.tbl.log2NumBuckets = t.tbl.log2NumBuckets) :
    t'.Chained order := by
  refine ⟨by rw [numBuckets, log2, chained.size], by rw [buckets, numBuckets, chained.length], chained.distinct, ?_⟩
  have bkt (i : Nat) : chainOf t'.bktOf order i = chainOf t.bktOf order i := by
    refine congrArg List.reverse (List.filter_congr fun x member => ?_)
    rw [UTHash.bktOf, UTHash.bktOf, hashv x member, numBuckets]
  intro i bucket cell
  rw [bkt, hh]
  exact chained.buckets i bucket (buckets ▸ cell)

theorem hashAdd_opened {hash : κ → U32} {t : UTHash κ} (holds : t.Holds hash xs) (fresh : add ∉ xs) (key : κ)
    (fuel : Nat) :
    ∃ (t₁ : UTHash κ) (order : List Nat),
      hashAdd hash fuel t add key = hashAddToTable fuel t₁ (hash key) add ∧ t₁.Chained order ∧ order.Perm xs ∧
      Chain t₁.app none (xs ++ [add]) none ∧ t₁.head = (xs ++ [add]).head? ∧ t₁.tbl.tail = add ∧
      t₁.tbl.numItems = xs.length ∧ t₁.hashv = Function.update t.hashv add (hash key) ∧
      t₁.key = Function.update t.key add key := by
  have apart : ∀ x ∈ xs, x ≠ add := fun x member same => fresh (same ▸ member)
  cases xs with
  | nil =>
    let first : UTHash κ := { t with
      hashv := Function.update t.hashv add (hash key), key := Function.update t.key add key
      head := some add, tbl := hashMakeTable add
      app := setPrev (setNext t.app add none) add none }
    refine ⟨first, [], ?_, ?_, List.Perm.refl _, ?_, rfl, rfl, rfl, rfl, rfl⟩
    · simp only [hashAdd, holds.head]
      rfl
    · exact (hashMakeTable_chained t add).frame rfl (fun _ member => absurd member List.not_mem_nil) rfl rfl rfl
    · exact ⟨by simp [first], by simp [first], trivial⟩
  | cons x rest =>
    obtain ⟨ends, items, order, perm, chained⟩ := holds.table (List.cons_ne_nil _ _)
    refine ⟨hashAppendList { t with
        hashv := Function.update t.hashv add (hash key), key := Function.update t.key add key } add,
      order, ?_, ?_, perm, ?_, holds.head, rfl, items, rfl, rfl⟩
    · simp only [hashAdd, holds.head]
      rfl
    · refine chained.frame rfl (fun y member => ?_) rfl rfl rfl
      exact Function.update_of_ne (apart y (perm.mem_iff.mp member)) _ _
    · refine chain_concat holds.app holds.distinct fresh ends _ (fun y member => ?_) (by simp) (by simp)
      rw [setPrev_other _ _ (apart y member), setNext_other _ _ (apart y member)]

/-- An addition puts the element behind the others, for any key and through any growth. -/
theorem hashAdd_holds {hash : κ → U32} {t : UTHash κ} (holds : t.Holds hash xs) (fresh : add ∉ xs) (key : κ)
    (enough : xs.length < fuel) :
    ∃ t', hashAdd hash fuel t add key = some t' ∧ t'.Holds hash (xs ++ [add]) ∧
      t'.key = Function.update t.key add key := by
  have hashed : ∀ x ∈ xs ++ [add],
      Function.update t.hashv add (hash key) x = hash (Function.update t.key add key x) := by
    intro x member
    rcases List.mem_append.mp member with old | new
    · have apart : x ≠ add := fun same => fresh (same ▸ old)
      rw [Function.update_of_ne apart, Function.update_of_ne apart, holds.hashed x old]
    · obtain rfl := List.mem_singleton.mp new
      simp
  have distinct : (xs ++ [add]).Nodup := by
    rw [← List.concat_eq_append]
    exact holds.distinct.concat fresh
  obtain ⟨t₁, order, opened, chained, perm, linked, front, tail, items, hashv, keys⟩ :=
    hashAdd_opened holds fresh key fuel
  let t₂ : UTHash κ := { t₁ with tbl := { t₁.tbl with numItems := t₁.tbl.numItems + 1 } }
  have chained₂ : t₂.Chained order := chained.frame rfl (fun _ _ => rfl) rfl rfl rfl
  have unmoved : add ∉ order := fun member => fresh (perm.mem_iff.mp member)
  obtain ⟨t', order', added, chained', moved, same⟩ := hashAddToBkt_spec chained₂ unmoved (perm.length_eq ▸ enough)
  have target : t₂.bktOf add = hashToBkt (hash key) t₂.tbl.numBuckets := by
    rw [UTHash.bktOf, show t₂.hashv = Function.update t.hashv add (hash key) from hashv, Function.update_self]
  refine ⟨t', ?_, ⟨?_, ?_, ?_, distinct, fun _ => ⟨?_, ?_, order', ?_, chained'⟩⟩, same.key.trans keys⟩
  · rw [opened, hashAddToTable]
    exact target ▸ added
  · exact same.head.trans front
  · rw [same.app]
    exact linked
  · rw [same.hashv, same.key]
    change ∀ x ∈ xs ++ [add], t₁.hashv x = hash (t₁.key x)
    rw [hashv, keys]
    exact hashed
  · rw [same.tail, show t₂.tbl.tail = add from tail, List.getLast?_concat]
  · rw [same.numItems, show t₂.tbl.numItems = t₁.tbl.numItems + 1 from rfl, items, List.length_append,
      List.length_singleton]
  · exact moved.trans ((perm.cons add).trans (List.perm_append_singleton add xs).symm)

section Lookup
variable [DecidableEq κ]

theorem hashFind_spec {hash : κ → U32} {t : UTHash κ} (holds : t.Holds hash xs) (key : κ) (enough : xs.length ≤ fuel) :
    ∃ out, hashFind hash fuel t key = some out ∧
      ∀ x, (out = some x → x ∈ xs ∧ t.key x = key) ∧ (out = none → x ∈ xs → t.key x ≠ key) := by
  cases xs with
  | nil => exact ⟨none, by rw [hashFind, holds.head]; rfl, fun x => ⟨nofun, fun _ member => absurd member List.not_mem_nil⟩⟩
  | cons y rest =>
    obtain ⟨_, _, order, perm, chained⟩ := holds.table (List.cons_ne_nil _ _)
    let i := hashToBkt (hash key) t.tbl.numBuckets
    have inside : i < t.tbl.buckets.length := by
      rw [chained.length]
      simp only [i, chained.size]
      exact hashToBkt_lt _ _
    have cell : t.tbl.buckets[i]? = some t.tbl.buckets[i] := List.getElem?_eq_getElem inside
    obtain ⟨front, _, linked⟩ := chained.buckets i _ cell
    have short : (chainOf t.bktOf order i).length ≤ fuel := by
      rw [chainOf, List.length_reverse]
      exact Nat.le_trans (List.length_filter_le _ _) (perm.length_eq ▸ enough)
    have member (x : Nat) : x ∈ chainOf t.bktOf order i ↔ x ∈ y :: rest ∧ t.bktOf x = i := by
      rw [mem_chainOf, perm.mem_iff]
    have opened : hashFind hash fuel t key = hashFindInBkt fuel t (chainOf t.bktOf order i).head? key (hash key) := by
      rw [hashFind, holds.head, ← front]
      simp only [List.head?_cons, cell, Option.bind_some, i]
    rw [opened, hashFindInBkt]
    refine walk_spec (fun done (out : Option Nat) => out = none ∧ ∀ x ∈ done, t.key x ≠ key) _ ?_ ?_
      ⟨rfl, fun _ none => absurd none List.not_mem_nil⟩ short
    · rintro done a later _ split ⟨rfl, missed⟩
      have here : a ∈ y :: rest := ((member a).mp (by rw [split]; simp)).1
      by_cases found : t.hashv a = hash key ∧ t.key a = key
      · refine ⟨none, some a, by rw [if_pos found], Or.inr ⟨rfl, fun x => ⟨?_, nofun⟩⟩⟩
        rintro same
        obtain rfl := Option.some.inj same
        exact ⟨here, found.2⟩
      · have other : t.key a ≠ key := by
          intro same
          exact found ⟨by rw [holds.hashed a here, same], same⟩
        rw [split] at linked
        have next : (t.hh a).next = later.head? := by
          have links := ((chain_append _ _ done (a :: later) _).mp linked).2.2.1
          rwa [Option.or_none] at links
        refine ⟨later.head?, none, by rw [if_neg found, next], Or.inl ⟨rfl, rfl, fun x member => ?_⟩⟩
        rcases List.mem_append.mp member with old | new
        · exact missed x old
        · rwa [List.mem_singleton.mp new]
    · rintro _ ⟨rfl, missed⟩ x
      refine ⟨nofun, fun _ inTable same => missed x ((member x).mpr ⟨inTable, ?_⟩) same⟩
      simp only [UTHash.bktOf, holds.hashed x inTable, same, i]

/-- With distinct keys a lookup answers as the search of the list in application order. -/
theorem hashFind_eq {hash : κ → U32} {t : UTHash κ} (holds : t.Holds hash xs) (keys : (xs.map t.key).Nodup) (key : κ)
    (enough : xs.length ≤ fuel) : hashFind hash fuel t key = some (Keyed.find t.key xs key) := by
  obtain ⟨out, searched, result⟩ := hashFind_spec holds key enough
  rw [searched]
  cases out with
  | some x =>
    obtain ⟨member, rfl⟩ := (result x).1 rfl
    rw [Keyed.find_of_mem keys member]
  | none =>
    have absent : Keyed.find t.key xs key = none := by
      rw [Keyed.find_eq_none, List.mem_map]
      rintro ⟨x, member, same⟩
      exact (result x).2 rfl member same
    rw [absent]

end Lookup

theorem fsckList_spec {links : Heap Nat} (linked : Chain links none l none) (enough : l.length ≤ fuel) :
    fsckList fuel links l.head? = some l.length := by
  have counted : ∃ s, walk (fsckTurn links) fuel l.head? (none, 0) = some s ∧ s.2 = l.length := by
    refine walk_spec (fun done s => s = (done.getLast?, done.length)) _ ?_ ?_ rfl enough
    · rintro done a rest _ rfl rfl
      obtain ⟨_, back, forth, _⟩ := (chain_append _ _ done (a :: rest) _).mp linked
      rw [Option.or_none] at back forth
      exact ⟨rest.head?, (some a, done.length + 1), by simp [fsckTurn, back, forth], Or.inl ⟨rfl, by simp⟩⟩
    · rintro _ rfl
      rfl
  obtain ⟨last, ran, total⟩ := counted
  rw [fsckList, ran, Option.map_some, total]

theorem hashFsck_ok {hash : κ → U32} {t : UTHash κ} (holds : t.Holds hash xs) (enough : xs.length ≤ fuel) :
    hashFsck fuel t = some () := by
  cases xs with
  | nil => rw [hashFsck, holds.head]; rfl
  | cons y rest =>
    obtain ⟨_, items, order, perm, chained⟩ := holds.table (List.cons_ne_nil _ _)
    have counts : ∀ n ≤ t.tbl.numBuckets, (List.range n).foldlM (fun count i => do
        let bucket ← t.tbl.buckets[i]?
        let bktCount ← fsckList fuel t.hh bucket.hhHead
        if bucket.count ≠ bktCount then none else some (count + bktCount)) 0 =
          some (byBucket t.bktOf order n).length := by
      intro n
      induction n with
      | zero => exact fun _ => rfl
      | succ n ih =>
        intro more
        have inside : n < t.tbl.buckets.length := by
          have := chained.length
          omega
        have cell : t.tbl.buckets[n]? = some t.tbl.buckets[n] := List.getElem?_eq_getElem inside
        obtain ⟨front, count, linked⟩ := chained.buckets n _ cell
        have short : (chainOf t.bktOf order n).length ≤ fuel := by
          rw [chainOf, List.length_reverse]
          exact Nat.le_trans (List.length_filter_le _ _) (perm.length_eq ▸ enough)
        rw [List.range_succ, List.foldlM_append, ih (by omega), byBucket_succ]
        simp [cell, front, fsckList_spec linked short, count]
    have all := (byBucket_perm chained.distinct fun x _ => chained.bktOf_lt x).length_eq
    have total : (byBucket t.bktOf order t.tbl.numBuckets).length = t.tbl.numItems := by
      rw [all, perm.length_eq, items]
    have app := fsckList_spec holds.app enough
    rw [hashFsck, holds.head, counts _ (Nat.le_refl _)]
    simp only [List.head?_cons, Option.bind_eq_bind, Option.bind_some, total, ne_eq, not_true_eq_false, if_false]
    rw [← @List.head?_cons _ y rest, app]
    simp [items]

section Runs
variable [DecidableEq κ]

/-- What the program does with a key: an element is added when none has it. The pointer of
an element is the number of the elements before it. -/
def findOrAdd (hash : κ → U32) (fuel : Nat) (s : UTHash κ × Nat) (key : κ) : Option (UTHash κ × Nat) :=
  (hashFind hash fuel s.1 key).bind fun found =>
    match found with
    | some _ => some s
    | none => (hashAdd hash fuel s.1 s.2 key).map fun t => (t, s.2 + 1)

theorem find_range (f : Nat → κ) (n : Nat) (key : κ) : Keyed.find f (List.range n) key = ((List.range n).map f).idxOf? key := by
  induction n with
  | zero => rfl
  | succ n ih =>
    have single : Keyed.find f [n] key = ([f n].idxOf? key).map (· + n) := by
      by_cases same : f n = key <;> simp [Keyed.find, List.idxOf?, List.findIdx?_cons, same]
    simp only [Keyed.find, List.idxOf?] at ih single ⊢
    rw [List.range_succ, List.find?_append, ih, single, List.map_append, List.map_singleton, List.findIdx?_append]
    simp

theorem eraseDups_concat (keys : List κ) (key : κ) :
    (keys ++ [key]).eraseDups = if key ∈ keys then keys.eraseDups else keys.eraseDups ++ [key] := by
  rw [List.eraseDups_append]
  by_cases seen : key ∈ keys <;> simp [List.removeAll, seen, List.eraseDups_cons]

theorem findOrAdd_run [Inhabited κ] (hash : κ → U32) (fuel : Nat) (keys : List κ)
    (enough : keys.eraseDups.length ≤ fuel) :
    ∃ t : UTHash κ, keys.foldlM (findOrAdd hash fuel) (.empty, 0) = some (t, keys.eraseDups.length) ∧
      t.Holds hash (List.range keys.eraseDups.length) ∧ (List.range keys.eraseDups.length).map t.key = keys.eraseDups ∧
      keys.eraseDups.Nodup := by
  induction keys using List.reverseRecOn with
  | nil => exact ⟨.empty, rfl, UTHash.empty_holds hash, rfl, List.nodup_nil⟩
  | append_singleton keys key ih =>
    rw [eraseDups_concat] at enough
    have fewer : keys.eraseDups.length ≤ fuel := by
      refine Nat.le_trans ?_ enough
      split <;> simp
    obtain ⟨t, ran, holds, own, distinct⟩ := ih fewer
    have searched := hashFind_eq holds (by rw [own]; exact distinct) key (show _ ≤ fuel by rw [List.length_range]; omega)
    rw [List.foldlM_append, ran, eraseDups_concat]
    by_cases seen : key ∈ keys
    · have held : key ∈ (List.range keys.eraseDups.length).map t.key := by
        rw [own]
        exact List.mem_eraseDups.mpr seen
      obtain ⟨x, found⟩ := Option.isSome_iff_exists.mp (Keyed.find_isSome.mpr held)
      rw [if_pos seen]
      exact ⟨t, by simp [findOrAdd, searched, found], holds, own, distinct⟩
    · rw [if_neg seen, List.length_append, List.length_singleton] at enough
      have absent : key ∉ keys.eraseDups := fun held => seen (List.mem_eraseDups.mp held)
      have missed : Keyed.find t.key (List.range keys.eraseDups.length) key = none := by
        rw [Keyed.find_eq_none, own]
        exact absent
      obtain ⟨t', added, holds', key'⟩ := hashAdd_holds holds (show keys.eraseDups.length ∉ _ by simp) key
        (show _ < fuel by rw [List.length_range]; omega)
      have others : (List.range keys.eraseDups.length).map t'.key = keys.eraseDups := by
        refine Eq.trans (List.map_congr_left fun x member => ?_) own
        rw [key', Function.update_of_ne (Nat.ne_of_lt (List.mem_range.mp member))]
      rw [if_neg seen, List.length_append, List.length_singleton, List.range_succ]
      refine ⟨t', by simp [findOrAdd, searched, missed, added], holds', ?_, ?_⟩
      · rw [List.map_append, others]
        simp [key']
      · rw [← List.concat_eq_append]
        exact distinct.concat absent

end Runs

end WlanBridge
