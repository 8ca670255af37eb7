import PointerTriage.Context

namespace PointerTriage.Context

/-- The values that may point to an object of `v`. -/
def aliases (c : Context) (v : ValueId) : IdSet :=
  .ofList ((c.pointsTo.objects v).toList.flatMap fun o => (c.pointsTo.pointers o).toList)

/-- The values whose definitions some root flows to. -/
def usersFrom (c : Context) (roots : IdSet) : IdSet :=
  .ofList ((c.flow.forwardClosure (roots.toList.filterMap c.def?)).filterMap c.flow.value?)

def users (c : Context) (v : ValueId) : IdSet := c.usersFrom ((c.aliases v).insert v)

def usersOfObject (c : Context) (o : ObjectId) : IdSet :=
  c.usersFrom ((c.pointsTo.pointers o).union (.ofList (c.pointsTo.site? o).toList))

end PointerTriage.Context
