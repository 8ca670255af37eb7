import PointerTriage.IdMap
import PointerTriage.Ir.Basic
import PointerTriage.Relation

namespace PointerTriage

/-- An abstract object; its id is its position among the locations. -/
structure Location where
  site : ValueId
  shape : Option Shape
  deriving Repr

def Location.text (l : Location) (o : ObjectId) : String :=
  match l.shape with
  | some s => s!"o{o}@v{l.site}:" ++ s.text
  | none => s!"o{o}@v{l.site}"

/-- Abstract objects, one for each allocation site, and the values that may point to them. Objects are
found by their sites, and pairs from both ends. -/
structure PointsTo where
  locations : List Location
  /-- The object of each site. -/
  index : IdMap ObjectId
  /-- The objects that each value may point to. -/
  relation : Relation
  /-- The values that may point to each object. -/
  inverse : Relation

namespace PointsTo

def empty : PointsTo := ⟨[], .empty, .empty, .empty⟩

def objects (p : PointsTo) (v : ValueId) : IdSet := p.relation.image v

def pointers (p : PointsTo) (o : ObjectId) : IdSet := p.inverse.image o

def site? (p : PointsTo) (o : ObjectId) : Option ValueId := (p.locations[o]?).map Location.site

def locationAt? (p : PointsTo) (site : ValueId) : Option ObjectId := p.index.get? site

/-- Relates a value to an object, and says whether the pair is new. An unknown object changes nothing. -/
def relate (p : PointsTo) (v : ValueId) (o : ObjectId) : PointsTo × Bool :=
  if o < p.locations.length then
    if o ∈ p.relation.image v then (p, false)
    else ({ p with relation := p.relation.insert v o, inverse := p.inverse.insert o v }, true)
  else (p, false)

def add (p : PointsTo) (v : ValueId) (o : ObjectId) : PointsTo := (p.relate v o).1

def isNew (p : PointsTo) (v : ValueId) (o : ObjectId) : Bool := (p.relate v o).2

def addAll (p : PointsTo) (pairs : List (ValueId × ObjectId)) : PointsTo :=
  pairs.foldl (fun p (v, o) => p.add v o) p

/-- The object of an allocation site, which points to it. -/
def addLocation (p : PointsTo) (site : ValueId) : PointsTo × ObjectId :=
  match p.locationAt? site with
  | some o => (p, o)
  | none =>
    let o := p.locations.length
    let p : PointsTo :=
      { p with locations := p.locations ++ [⟨site, none⟩], index := p.index.set site o }
    (p.add site o, o)

def setShape (p : PointsTo) (o : ObjectId) (shape : Shape) : PointsTo :=
  { p with locations := p.locations.modify o ({ · with shape := some shape }) }

def mayAlias (p : PointsTo) (a b : ValueId) : Bool := (p.objects a).meets (p.objects b)

structure Stats where
  pointers : Nat
  locations : Nat
  edges : Nat
  /-- The size of the largest set of objects. -/
  largest : Nat
  deriving DecidableEq, Repr

def stats (p : PointsTo) : Stats where
  pointers := p.relation.rows.length
  locations := p.locations.length
  edges := p.relation.size
  largest := (p.relation.rows.map (·.2.size)).foldr max 0

def text (p : PointsTo) : String :=
  let row := fun (v, objects) =>
    s!"v{v} -> \x7b" ++ ", ".intercalate (IdSet.toList objects |>.map fun o => s!"o{o}") ++ "\x7d\n"
  String.join (p.relation.rows.map row)

end PointsTo

end PointerTriage
