import JobWeave.Command.Toml.Entry

/-!
# TOML documents

The entries of a document define a tree of tables (`parse?`), or none when they
contradict each other.  Nothing is defined twice, but for two exceptions:

* a table that is only named on the way to something else (`Progress.named`) may
  be defined later, and keeps what it holds;
* what is known as an array (`Progress.arrays`) and has been named on the way to
  something else gives way to its new definition.

A key of an array that is an empty text makes an array of the table around it.
-/

namespace JobWeave.Toml

/-- What a key holds. -/
inductive Node where
  | leaf (s : Scalar)
  /-- an array, whose elements no setting asks for -/
  | list
  | table (entries : List (String × Node))
  /-- tables that headers in double brackets add to -/
  | tables (ts : List (List (String × Node)))
  deriving Inhabited

/-- Keys with what they hold. -/
abbrev Table := List (String × Node)

namespace Table

/-- What a key holds. -/
def find? (t : Table) (k : String) : Option Node :=
  (List.find? (·.1 == k) t).map (·.2)

/-- Gives a key something to hold. -/
def set (t : Table) (k : String) (n : Node) : Table :=
  if (t.find? k).isSome then t.map fun e => if e.1 == k then (k, n) else e
  else t ++ [(k, n)]

/-- Of several tables the last one is meant. -/
def last (ts : List Table) : Table :=
  ts.getLast?.getD []

/-- What a path leads to. -/
def get? (t : Table) : Path → Option Node
  | [] => some (.table t)
  | k :: ks =>
    match t.find? k with
    | some (.table inner) => get? inner ks
    | some (.tables ts) =>
      if ks.isEmpty then some (.tables ts) else get? (last ts) ks
    | some n => if ks.isEmpty then some n else none
    | none => none

/-- Gives the key at the end of a path something to hold.  The tables on the way
must be there. -/
def put? (t : Table) (n : Node) : Path → Option Table
  | [] => none
  | [k] => some (t.set k n)
  | k :: ks =>
    match t.find? k with
    | some (.table inner) => do return t.set k (.table (← put? inner n ks))
    | some (.tables ts) => do
      return t.set k (.tables (ts.dropLast ++ [← put? (last ts) n ks]))
    | _ => none

/-- Like `put?`, but tables that are missing on the way are made. -/
def place? (t : Table) (n : Node) : Path → Option Table
  | [] => none
  | [k] => some (t.set k n)
  | k :: ks =>
    match t.find? k with
    | none => do return t.set k (.table (← place? [] n ks))
    | some (.table inner) => do return t.set k (.table (← place? inner n ks))
    | some _ => none

end Table

mutual

/-- What a written value stands for. -/
def Value.node? : Value → Option Node
  | .scalar s => some (.leaf s)
  | .list vs => if areNodes vs then some .list else none
  | .fields fs => (nodes? fs []).map .table

/-- All values stand for something. -/
def areNodes : List Value → Bool
  | [] => true
  | v :: vs => v.node?.isSome && areNodes vs

/-- The table of some fields. -/
def nodes? : List (Path × Value) → Table → Option Table
  | [], t => some t
  | (k, v) :: fs, t => do nodes? fs (← t.place? (← v.node?) k)

end

/-- What has been defined so far. -/
structure Progress where
  /-- the whole document -/
  root : Table := []
  /-- what has been named on the way to something else -/
  named : List Path := []
  /-- what is known as an array -/
  arrays : List Path := []

namespace Progress

/-- Takes note that a path was named on the way to something else. -/
def name (p : Progress) (path : Path) : Progress :=
  { p with named := path :: p.named }

/-- Takes note whether the value of a key is an array.  An empty key speaks of
the table that it is in. -/
def mark (p : Progress) (path : Path) (isArray : Bool) : Progress :=
  let path := if path.getLast? == some "" && 1 < path.length then path.dropLast
    else path
  let others := p.arrays.filter (· != path)
  { p with arrays := if isArray then path :: others else others }

/-- Defines what a path leads to. -/
def define (p : Progress) (path : Path) (n : Node) : Option Progress :=
  if (p.root.get? path).isNone then do
    return { p with root := ← p.root.put? n path }
  else if !p.named.contains path then none
  else
    let p := { p with named := p.named.filter (· != path) }
    if p.arrays.contains path then do
      return { p with root := ← p.root.put? n path }
    else some p

/-- The table that a path passes through; a missing one is made. -/
def pass (p : Progress) (path : Path) : Option Progress :=
  match p.root.get? path with
  | none =>
    do return { p.name path with root := ← p.root.put? (.table []) path }
  | some (.table _) | some (.tables _) => some p
  | some _ => none

/-- Passes through all tables in front of the end of a path. -/
def passAll (p : Progress) (path : Path) : Option Progress :=
  ((List.range path.length).drop 1).foldlM (fun p n => p.pass (path.take n)) p

/-- Defines a table. -/
def openTable (p : Progress) (path : Path) : Option Progress := do
  (← p.passAll path).define path (.table [])

/-- Adds a table to an array of tables. -/
def addTable (p : Progress) (path : Path) : Option Progress := do
  let p ← p.passAll path
  let put := fun (ts : List Table) => do
    return { p with root := ← p.root.put? (.tables (ts ++ [[]])) path }
  match p.root.get? path with
  | none => put []
  | some (.tables ts) => put ts
  | some _ => none

/-- Names and defines the tables that the parts of a key in front of its last
one stand for. -/
def lead (p : Progress) (context key : Path) : Option Progress :=
  ((List.range key.length).drop 1).foldlM (fun p n =>
    let path := context ++ key.take n
    (p.name path).openTable path) p

/-- Defines the key at the end of a path, once all that its value holds is
defined. -/
def settle (p : Progress) (path : Path) (v : Value) : Option Progress := do
  return (← p.define path (← v.node?)).mark path v.isList

mutual

/-- Defines what the value of a key holds. -/
def inner (path : Path) (inArray : Bool) : Value → Progress → Option Progress
  | .scalar _, p => some p
  | .list vs, p => elements path vs (p.mark path true)
  | .fields fs, p => do
    let p := p.name path
    fields path fs (← if inArray then p.addTable path else p.openTable path)

/-- Defines what the elements of an array hold. -/
def elements (path : Path) : List Value → Progress → Option Progress
  | [], p => some p
  | v :: vs, p => do elements path vs (← inner path true v p)

/-- Defines fields in the table of a context. -/
def fields (context : Path) : List (Path × Value) → Progress → Option Progress
  | [], p => some p
  | (k, v) :: fs, p => do
    let p ← inner (context ++ k) false v (← p.lead context k)
    fields context fs (← p.settle (context ++ k) v)

end

/-- Defines what entries say; keys belong to the table of the last header. -/
def entries : Path → List Entry → Progress → Option Progress
  | _, [], p => some p
  | context, e :: es, p =>
    match e with
    | .table path => do entries path es ((← p.openTable path).mark path false)
    | .element path => do entries path es ((← p.addTable path).mark path false)
    | .field k v => do entries context es (← fields context [(k, v)] p)

end Progress

/-- The tables of a document. -/
def parse? (s : String) : Option Table := do
  return (← Progress.entries [] (← entries? s) {}).root

end JobWeave.Toml
