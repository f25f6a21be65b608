import Nexus.Runtime
import Nexus.Binary64
import Mathlib.Data.Nat.Sqrt

namespace Nexus

inductive NodeType
  | ground
  | satellite
  | unknown
  deriving DecidableEq, Repr

/-- The fields of a node that the network manager reads. -/
structure Node where
  type : NodeType
  id : String
  name : String
  ip : String
  port : Int
  coords : Binary64 × Binary64
  deriving DecidableEq

/-- `matrix topology`. A row is made with as many columns as there are rows, and only its entries
change afterwards. -/
structure Topology where
  rows : List (List Int)
  square : ∀ row ∈ rows, row.length = rows.length

namespace Topology

def empty : Topology := ⟨[], by simp⟩

/-- `topology[i][j]` as a value. -/
def read (t : Topology) (i j : Nat) : Except Fault Int := do
  let row ← readAt t.rows i
  readAt row j

/-- `topology[i][j] = w`. -/
def write (t : Topology) (i j : Nat) (w : Int) : Except Fault Topology :=
  match atRow : t.rows[i]? with
  | none => .error .outOfRange
  | some row =>
    if j < row.length then
      .ok ⟨t.rows.set i (row.set j w), by
        intro r member
        rw [List.length_set]
        rcases List.mem_or_eq_of_mem_set member with old | new
        · exact t.square r old
        · rw [new, List.length_set]
          exact t.square row (List.mem_of_getElem? atRow)⟩
    else .error .outOfRange

end Topology

structure NetworkManager where
  topology : Topology
  nextHop : List Nat
  nodes : List Node

/-- `std::pow(a - b, 2)` converted to `int`. The square is taken as correctly rounded. -/
def squaredDiff (a b : Binary64) : Except Fault Int :=
  match ((a.sub b).mul (a.sub b)).truncate with
  | some v => checkInt v
  | none => .error .overflow

/-- `std::sqrt` of an `int` converted to `long long`. Rounding to 53 bits keeps the integer part of
the root of a 31-bit number; the root of a negative number is not a number. -/
def sqrtInt (v : Int) : Except Fault Int :=
  if v < 0 then .error .overflow else .ok (v.toNat.sqrt : Int)

def distance (a b : Node) : Except Fault Int := do
  let x_diff ← squaredDiff a.coords.1 b.coords.1
  let y_diff ← squaredDiff a.coords.2 b.coords.2
  let sum ← checkInt (x_diff + y_diff)
  sqrtInt sum

/-- The quadratic penalty on weights above 500. -/
def penalised (weight : Int) : Except Fault Int :=
  if 500 < weight then do
    let excess ← checkLongLong (weight - 500)
    let square ← checkLongLong (excess * excess)
    checkLongLong (500 + square)
  else .ok weight

/-- What the double loop of `updateRoutingTable` stores for a pair of nodes. -/
def linkWeight (a b : Node) : Except Fault Int := do
  let weight ← distance a b
  if a.type = .ground ∧ b.type = .ground then .ok LONG_LONG_MAX
  else if a.type = .ground then checkLongLong (weight + 1000) >>= penalised
  else if b.type = .ground then checkLongLong (weight + 1000) >>= penalised
  else penalised weight

def storeLink (nodes : List Node) (t : Topology) (i j : Nat) : Except Fault Topology := do
  let a ← readAt nodes i
  let b ← readAt nodes j
  let weight ← linkWeight a b
  let t ← t.write i j weight
  t.write j i weight

/-- The local tables of `route`, with the member table that it fills. -/
structure RouteTables where
  visited : List Bool
  minDist : List Int
  nextHop : List Nat
  deriving DecidableEq

/-- The inner scan: the last of the nearest unvisited nodes, `none` where `minUnvIdx` keeps the
indeterminate value that it was declared with. -/
def scanUnvisited (t : RouteTables) (best : Int × Option Nat) (j : Nat) :
    Except Fault (Int × Option Nat) := do
  let seen ← readAt t.visited j
  if seen then pure best
  else
    let d ← readAt t.minDist j
    if d ≤ best.1 then pure (d, some j) else pure best

def relax (topology : Topology) (src_idx minUnvIdx : Nat) (t : RouteTables) (j : Nat) :
    Except Fault RouteTables := do
  let seen ← readAt t.visited j
  if seen then pure t
  else
    let link ← topology.read minUnvIdx j
    if link = LONG_LONG_MAX then pure t
    else
      let base ← readAt t.minDist minUnvIdx
      let sum ← checkLongLong (base + link)
      let old ← readAt t.minDist j
      if sum < old then
        let minDist ← writeAt t.minDist j (storeInt sum)
        if minUnvIdx = src_idx then pure { t with minDist }
        else
          let nextHop ← writeAt t.nextHop j minUnvIdx
          pure { t with minDist, nextHop }
      else pure t

/-- One pass of the outer loop of `route` over `n` nodes. -/
def visitNearest (topology : Topology) (n src_idx : Nat) (t : RouteTables) : Except Fault RouteTables := do
  let best ← forRange n (INT_MAX, none) (scanUnvisited t)
  match best.2 with
  | none => .error .uninitialised
  | some minUnvIdx =>
    let visited ← writeAt t.visited minUnvIdx true
    forRange n { t with visited } (relax topology src_idx minUnvIdx)

/-- Every destination becomes its own next hop, whatever the table held before. -/
def resetNextHop (n : Nat) (nextHop : List Nat) : Except Fault (List Nat) :=
  let sized := if nextHop.length ≠ n then nextHop.take n ++ List.replicate (n - nextHop.length) 0 else nextHop
  forRange n sized fun hops i => writeAt hops i i

/-- `route` with its local tables still in view. -/
def routeTables (topology : Topology) (nextHop : List Nat) (n src_idx : Nat) : Except Fault RouteTables := do
  let nextHop ← resetNextHop n nextHop
  let minDist ← writeAt (List.replicate n INT_MAX) src_idx 0
  forRange n ⟨List.replicate n false, minDist, nextHop⟩ fun t _ => visitNearest topology n src_idx t

namespace NetworkManager

def findNode (nm : NetworkManager) (name : String) : Option Node :=
  nm.nodes.find? fun node => node.name = name

def createRoutingTable (nm : NetworkManager) : NetworkManager where
  topology := ⟨List.replicate nm.nodes.length (List.replicate nm.nodes.length 0), by
    intro row member
    rw [List.eq_of_mem_replicate member, List.length_replicate, List.length_replicate]⟩
  nextHop := nm.nextHop
  nodes := nm.nodes

def route (nm : NetworkManager) (src_idx : Nat) : Except Fault NetworkManager := do
  let t ← routeTables nm.topology nm.nextHop nm.nodes.length src_idx
  pure { nm with nextHop := t.nextHop }

/-- The first position of the name of `src`, 0 if it is not in the list. -/
def srcIdx (nodes : List Node) (src : Node) : Nat :=
  (nodes.findIdx? fun node => node.name = src.name).getD 0

def updateRoutingTable (nm : NetworkManager) (src : Node) : Except Fault NetworkManager := do
  let nm := if nm.nodes.length ≠ nm.topology.rows.length then nm.createRoutingTable else nm
  let n := nm.nodes.length
  let topology ← forRange n nm.topology fun t i => forRange n t fun t j => storeLink nm.nodes t i j
  { nm with topology }.route (srcIdx nm.nodes src)

/-- `none` is the null pointer. -/
def getNextHop (nm : NetworkManager) (name : String) : Except Fault (Option Node) :=
  match nm.nodes.findIdx? fun node => node.name = name with
  | none => .ok none
  | some n_idx => do
    let hop ← readAt nm.nextHop n_idx
    let node ← readAt nm.nodes hop
    pure (some node)

end NetworkManager
end Nexus
