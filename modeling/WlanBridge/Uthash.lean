import WlanBridge.Ethernet
import WlanBridge.Links

/-! `uthash.h`: the intrusive hash table behind the forwarding table and the statistics,
with its growth. An element is its pointer; the fields of the hash handles are maps from
elements. The allocations of the macros end the process when they fail, so they succeed. -/
namespace WlanBridge

open Links

def hashJenMix (a b c : U32) : U32 × U32 × U32 :=
  let a := (a - b - c) ^^^ (c >>> 13)
  let b := (b - c - a) ^^^ (a <<< 8)
  let c := (c - a - b) ^^^ (b >>> 13)
  let a := (a - b - c) ^^^ (c >>> 12)
  let b := (b - c - a) ^^^ (a <<< 16)
  let c := (c - a - b) ^^^ (b >>> 5)
  let a := (a - b - c) ^^^ (c >>> 3)
  let b := (b - c - a) ^^^ (a <<< 10)
  let c := (c - a - b) ^^^ (b >>> 15)
  (a, b, c)

/-- The sum that the source spells out for up to four bytes, least significant first. -/
def jenWord : List Byte → U32
  | [] => 0
  | k :: rest => k.setWidth 32 + (jenWord rest <<< 8)

/-- The loop over twelve bytes at a time, then the switch on what is left. -/
def hashJenLoop (keylen : Nat) (i j hashv : U32) : List Byte → U32
  | k0 :: k1 :: k2 :: k3 :: k4 :: k5 :: k6 :: k7 :: k8 :: k9 :: k10 :: k11 :: rest =>
    let (i, j, hashv) := hashJenMix (i + jenWord [k0, k1, k2, k3]) (j + jenWord [k4, k5, k6, k7])
      (hashv + jenWord [k8, k9, k10, k11])
    hashJenLoop keylen i j hashv rest
  | key =>
    let hashv := hashv + BitVec.ofNat 32 keylen
    -- the lowest byte of `hashv` is taken by the length
    (hashJenMix (i + jenWord (key.take 4)) (j + jenWord ((key.drop 4).take 4))
      (hashv + (jenWord (key.drop 8) <<< 8))).2.2

def hashJen (key : List Byte) : U32 := hashJenLoop key.length 0x9e3779b9 0x9e3779b9 0xfeedbeef key

def HASH_INITIAL_NUM_BUCKETS : Nat := 32

def HASH_INITIAL_NUM_BUCKETS_LOG2 : Nat := 5

def HASH_BKT_CAPACITY_THRESH : Nat := 10

structure UTHashBucket where
  hhHead : Option Nat
  count : Nat
  expandMult : Nat
  deriving DecidableEq, Repr

structure UTHashTable where
  buckets : List UTHashBucket
  numBuckets : Nat
  log2NumBuckets : Nat
  numItems : Nat
  tail : Nat
  idealChainMaxlen : Nat
  nonidealItems : Nat
  ineffExpands : Nat
  noexpand : Bool
  deriving DecidableEq, Repr

/-- The head variable of a hash, its table, and the handles of all elements: `prev` and
`next` in application order, `hh_prev` and `hh_next` in the buckets, the key, its hash. -/
structure UTHash (κ : Type) where
  head : Option Nat
  tbl : UTHashTable
  app : Heap Nat
  hh : Heap Nat
  key : Nat → κ
  hashv : Nat → U32

def hashMakeTable (head : Nat) : UTHashTable where
  buckets := List.replicate HASH_INITIAL_NUM_BUCKETS ⟨none, 0, 0⟩
  numBuckets := HASH_INITIAL_NUM_BUCKETS
  log2NumBuckets := HASH_INITIAL_NUM_BUCKETS_LOG2
  numItems := 0
  tail := head
  idealChainMaxlen := 0
  nonidealItems := 0
  ineffExpands := 0
  noexpand := false

/-- While the head is null there is no table and none is read. -/
def UTHash.empty {κ : Type} [Inhabited κ] : UTHash κ where
  head := none
  tbl := hashMakeTable 0
  app := fun _ => ⟨none, none⟩
  hh := fun _ => ⟨none, none⟩
  key := fun _ => default
  hashv := fun _ => 0

def hashToBkt (hashv : U32) (numBkts : Nat) : Nat := hashv.toNat &&& (numBkts - 1)

variable {κ : Type}

def hashFindInBkt [DecidableEq κ] (fuel : Nat) (t : UTHash κ) (hhHead : Option Nat) (key : κ) (hashval : U32) :
    Option (Option Nat) :=
  walk (fun out _ =>
    if t.hashv out = hashval ∧ t.key out = key then some (none, some out) else some ((t.hh out).next, none))
    fuel hhHead none

/-- There is no result when a loop is not left within `fuel` turns or reads outside its array. -/
def hashFind [DecidableEq κ] (hash : κ → U32) (fuel : Nat) (t : UTHash κ) (key : κ) :
    Option (Option Nat) :=
  match t.head with
  | none => some none
  | some _ =>
    let hashv := hash key
    t.tbl.buckets[hashToBkt hashv t.tbl.numBuckets]?.bind fun bkt => hashFindInBkt fuel t bkt.hhHead key hashv

/-- What `HASH_EXPAND_BUCKETS` works on: the bucket links, the new buckets and a count. -/
structure Expansion where
  hh : Heap Nat
  newBuckets : List UTHashBucket
  nonidealItems : Nat

/-- A bucket with one more element, and a higher multiplier when its chain is too long. -/
def UTHashBucket.counted (ideal : Nat) (newbkt : UTHashBucket) : UTHashBucket :=
  let newbkt := { newbkt with count := newbkt.count + 1 }
  if newbkt.count > ideal ∧ newbkt.count > newbkt.expandMult * ideal then
    { newbkt with expandMult := newbkt.expandMult + 1 }
  else newbkt

def expandItem (ideal bkt thh : Nat) (e : Expansion) : Option Expansion :=
  e.newBuckets[bkt]?.map fun newbkt =>
    let counted := newbkt.counted ideal
    ⟨push e.hh newbkt.hhHead thh, e.newBuckets.set bkt { counted with hhHead := some thh },
      if counted.count > ideal then e.nonidealItems + 1 else e.nonidealItems⟩

/-- The items over the doubled number of buckets, rounded up. -/
def UTHashTable.idealChain (tbl : UTHashTable) : Nat :=
  (tbl.numItems >>> (tbl.log2NumBuckets + 1)) + if tbl.numItems &&& (tbl.numBuckets * 2 - 1) ≠ 0 then 1 else 0

/-- The loop over an old bucket; the successor is noted before an element is moved. -/
def expandBucket (fuel : Nat) (t : UTHash κ) (e : Expansion) (i : Nat) : Option Expansion :=
  t.tbl.buckets[i]?.bind fun bucket =>
    walk (fun thh e =>
      let nxt := (e.hh thh).next
      (expandItem t.tbl.idealChain (hashToBkt (t.hashv thh) (t.tbl.numBuckets * 2)) thh e).map fun e => (nxt, e))
      fuel bucket.hhHead e

/-- The table with its new buckets; two growths in a row that helped too little are the last. -/
def UTHash.expanded (t : UTHash κ) (e : Expansion) : UTHash κ :=
  let tbl := t.tbl
  let ineff := if e.nonidealItems > tbl.numItems >>> 1 then tbl.ineffExpands + 1 else 0
  { t with
    hh := e.hh
    tbl := { tbl with
      buckets := e.newBuckets
      numBuckets := tbl.numBuckets * 2
      log2NumBuckets := tbl.log2NumBuckets + 1
      idealChainMaxlen := tbl.idealChain
      nonidealItems := e.nonidealItems
      ineffExpands := ineff
      noexpand := tbl.noexpand || ineff > 1 } }

def hashExpandBuckets (fuel : Nat) (t : UTHash κ) : Option (UTHash κ) :=
  ((List.range t.tbl.numBuckets).foldlM (expandBucket fuel t)
    ⟨t.hh, List.replicate (t.tbl.numBuckets * 2) ⟨none, 0, 0⟩, 0⟩).map t.expanded

def hashAddToBkt (fuel : Nat) (t : UTHash κ) (bkt add : Nat) : Option (UTHash κ) :=
  t.tbl.buckets[bkt]?.bind fun head =>
    let pushed : UTHashBucket := { head with count := head.count + 1, hhHead := some add }
    let t := { t with
      hh := push t.hh head.hhHead add
      tbl := { t.tbl with buckets := t.tbl.buckets.set bkt pushed } }
    if pushed.count ≥ (pushed.expandMult + 1) * HASH_BKT_CAPACITY_THRESH ∧ ¬t.tbl.noexpand then
      hashExpandBuckets fuel t
    else some t

def hashAddToTable (fuel : Nat) (t : UTHash κ) (hashval : U32) (add : Nat) : Option (UTHash κ) :=
  let t := { t with tbl := { t.tbl with numItems := t.tbl.numItems + 1 } }
  hashAddToBkt fuel t (hashToBkt hashval t.tbl.numBuckets) add

def hashAppendList (t : UTHash κ) (add : Nat) : UTHash κ :=
  { t with
    app := setNext (setPrev (setNext t.app add none) add (some t.tbl.tail)) t.tbl.tail (some add)
    tbl := { t.tbl with tail := add } }

def hashAdd (hash : κ → U32) (fuel : Nat) (t : UTHash κ) (add : Nat) (key : κ) : Option (UTHash κ) :=
  let hashv := hash key
  let t := { t with hashv := Function.update t.hashv add hashv, key := Function.update t.key add key }
  let t := match t.head with
    | none =>
      { t with app := setPrev (setNext t.app add none) add none, tbl := hashMakeTable add, head := some add }
    | some _ => hashAppendList t add
  hashAddToTable fuel t hashv add

/-- A turn of the loops that count a list; no result stands for an `HASH_OOPS`. -/
def fsckTurn (links : Heap Nat) (thh : Nat) (s : Option Nat × Nat) : Option (Option Nat × Option Nat × Nat) :=
  let (prev, count) := s
  if prev ≠ (links thh).prev then none else some ((links thh).next, some thh, count + 1)

def fsckList (fuel : Nat) (links : Heap Nat) (head : Option Nat) : Option Nat :=
  (walk (fsckTurn links) fuel head (none, 0)).map Prod.snd

/-- The integrity check that the debug build makes after each addition. -/
def hashFsck (fuel : Nat) (t : UTHash κ) : Option Unit :=
  match t.head with
  | none => some ()
  | some _ => do
    let count ← (List.range t.tbl.numBuckets).foldlM (fun count i => do
      let bucket ← t.tbl.buckets[i]?
      let bktCount ← fsckList fuel t.hh bucket.hhHead
      if bucket.count ≠ bktCount then none else some (count + bktCount)) 0
    if count ≠ t.tbl.numItems then none else
    let count ← fsckList fuel t.app t.head
    if count ≠ t.tbl.numItems then none else some ()

end WlanBridge
