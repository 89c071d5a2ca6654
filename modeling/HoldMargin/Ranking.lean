import HoldMargin.Measurement
/-!
# Rankings of connections

The setup ranking lists the longest connections first. The hold ranking
lists the shortest first, and of them only those that lead from one clock
region to another along the skew axis. A connection without a length, or of
length zero, is in neither: nothing is known of it, which is not to say
that it is at risk. Connections of one length are told apart by net, sink
and driver, so a ranking is determined by its members.
-/

namespace HoldMargin

/-- A connection in a ranking. -/
structure Ranked where
  length : Nat
  net : NetId
  sink : PinId
  driver : PinId
deriving DecidableEq

namespace Ranked

/-- What tells the connection from all others. -/
def key (c : Ranked) : NetSink := { net := c.net, sink := c.sink }

instance : Ord Ranked :=
  ⟨compareLex (compareOn length)
    (compareLex (compareOn net) (compareLex (compareOn sink) (compareOn driver)))⟩

instance : Std.TransOrd Ranked :=
  inferInstanceAs (Std.TransCmp (compareLex (compareOn length)
    (compareLex (compareOn net) (compareLex (compareOn sink) (compareOn driver)))))

instance : Std.LawfulEqOrd Ranked where
  eq_of_compare {a b} h := by
    have h : (compare a.length b.length).then ((compare a.net b.net).then
        ((compare a.sink b.sink).then (compare a.driver b.driver))) = .eq := h
    simp only [Ordering.then_eq_eq] at h
    obtain ⟨hl, hn, hs, hd⟩ := h
    have hl := Std.LawfulEqOrd.eq_of_compare hl
    have hn := Std.LawfulEqOrd.eq_of_compare hn
    have hs := Std.LawfulEqOrd.eq_of_compare hs
    have hd := Std.LawfulEqOrd.eq_of_compare hd
    cases a; cases b; cases hl; cases hn; cases hs; cases hd; rfl

/-- Whether `a` is ranked before `b`, or is `b`, with the shortest first. -/
def notLonger (a b : Ranked) : Bool := (compare a b).isLE

theorem notLonger_trans (a b c : Ranked) (h : notLonger a b) (h' : notLonger b c) :
    notLonger a c :=
  Std.TransCmp.isLE_trans h h'

theorem notLonger_total (a b : Ranked) : notLonger a b || notLonger b a := by
  unfold notLonger
  rw [Std.OrientedOrd.eq_swap (a := b) (b := a)]
  cases compare a b <;> rfl

end Ranked

/-- The connection as it is ranked, if it has a length to be ranked by. -/
def MeasuredConnection.ranked? (c : MeasuredConnection) : Option Ranked :=
  if c.isDirect then none
  else
    (c.length.filter (0 < ·)).map fun length =>
      { length, net := c.net, sink := c.sink, driver := c.driver }

/-- The coordinate of a clock region along an axis. -/
def ClockRegion.along (r : ClockRegion) : SkewAxis → UInt32
  | .column => r.col
  | .row => r.row

namespace Placement

variable (p : Placement)

/-- The clock region of the site of a pin. -/
def pinRegion? (id : PinId) : Option ClockRegion :=
  (p.netlist.pin? id).bind fun pin => p.device.regionOf? pin.site

/-- Whether two pins lie in clock regions that differ along the axis. A pin
without a known region crosses nothing. -/
def crossesRegions (axis : SkewAxis) (driver sink : PinId) : Bool :=
  match p.pinRegion? driver, p.pinRegion? sink with
  | some a, some b => a.along axis != b.along axis
  | _, _ => false

/-- The connection as it is ranked for hold risk. -/
def atRisk? (axis : SkewAxis) (c : MeasuredConnection) : Option Ranked :=
  c.ranked?.filter fun _ => p.crossesRegions axis c.driver c.sink

end Placement

/-- A ranking: the connections still in it, in their order. -/
structure Ranking where
  toList : List Ranked
deriving DecidableEq

namespace Ranking

/-- The longest first. -/
def setup (cs : List MeasuredConnection) : Ranking :=
  ⟨(cs.filterMap MeasuredConnection.ranked?).mergeSort fun a b => b.notLonger a⟩

/-- Those at risk of a hold violation, the shortest first. -/
def hold (p : Placement) (axis : SkewAxis) (cs : List MeasuredConnection) : Ranking :=
  ⟨(cs.filterMap (p.atRisk? axis)).mergeSort Ranked.notLonger⟩

/-- The number of connections in the ranking. -/
def size (r : Ranking) : Nat := r.toList.length

/-- The first connection. -/
def first? (r : Ranking) : Option Ranked := r.toList.head?

/-- Takes the first connection out. -/
def pop (r : Ranking) : Option Ranked × Ranking := (r.first?, ⟨r.toList.tail⟩)

/-- Takes out the first `k` connections, or all there are. -/
def takeTop (r : Ranking) (k : Nat) : List Ranked × Ranking :=
  (r.toList.take k, ⟨r.toList.drop k⟩)

theorem pairwise_hold (p : Placement) (axis : SkewAxis) (cs : List MeasuredConnection) :
    (hold p axis cs).toList.Pairwise fun a b => a.notLonger b :=
  List.pairwise_mergeSort Ranked.notLonger_trans Ranked.notLonger_total _

theorem pairwise_setup (cs : List MeasuredConnection) :
    (setup cs).toList.Pairwise fun a b => b.notLonger a :=
  List.pairwise_mergeSort (fun a b c h h' => Ranked.notLonger_trans c b a h' h)
    (fun a b => Ranked.notLonger_total b a) _

/-- A ranking has no other members than the connections that can be ranked. -/
theorem mem_hold {p : Placement} {axis : SkewAxis} {cs : List MeasuredConnection}
    {c : Ranked} :
    c ∈ (hold p axis cs).toList ↔ ∃ m ∈ cs, p.atRisk? axis m = some c := by
  simp [hold, List.mem_mergeSort, List.mem_filterMap]

end Ranking

end HoldMargin
