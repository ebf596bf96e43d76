import Roster.Elementary
import Roster.Table.Entry

/-!
# Distances on the earth

The great-circle distance by the haversine formula, in kilometres.
-/

namespace Roster

namespace Location

/-- The mean radius in kilometres. -/
def earthRadius : Float := 6371.0

def radiansPerDegree : Float := 3.14159265358979323846264338327950288 / 180.0

/-- Half the versed cosine of an angle, which is the square of the sine of half the angle. -/
def haversine (m : Elementary) (angle : Float) : Float :=
  m.sin (angle / 2.0) * m.sin (angle / 2.0)

/-- The length of the shortest arc between two places. -/
def distance (m : Elementary) (a b : Location) : Float :=
  let latitude := a.latitude * radiansPerDegree
  let latitude' := b.latitude * radiansPerDegree
  let longitude := a.longitude * radiansPerDegree
  let longitude' := b.longitude * radiansPerDegree
  let h := haversine m (latitude' - latitude) +
    m.cos latitude * m.cos latitude' * haversine m (longitude' - longitude)
  2.0 * earthRadius * m.asin (smaller h.sqrt 1.0)

end Location

end Roster
