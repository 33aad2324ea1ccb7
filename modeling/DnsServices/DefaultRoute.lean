import DnsServices.Text

namespace DnsServices.Microdoh3

open Text

/-!
# The interface of the default route

`default_route_iface` of `main.rs` looks for the interface whose transmit
queues decide the CPUs of the workers.  Its loop takes the fields of a line one
by one: the interface, the destination, and then, for its comparison, the next
field, which is the gateway.
-/

/-- `0.0.0.0` as `/proc/net/route` prints it. -/
def zeroAddress : Str := "00000000".toList

/-- The loop over the lines behind the header. -/
def scanRoutes : List Str → Option Str
  | [] =>
      none
  | line :: rest =>
      match splitWhitespace line with
      -- a line with fewer than two fields ends the search: `f.next()?`
      | [] =>
          none
      | [_] =>
          none
      | iface :: _dest :: fields =>
          if (fields.head?.map (· == zeroAddress)).getD false then
            some iface
          else
            scanRoutes rest

/-- The interface for the text of `/proc/net/route`, if that can be read. -/
def defaultRouteIface (routes : Option Str) : Option Str := do
  let routes ← routes
  scanRoutes ((lines routes).drop 1)

/-! ## Routing tables -/

/-- The fields of a route that name where it leads. -/
structure Route where
  iface : Str
  destination : Str
  gateway : Str
  deriving Repr, DecidableEq

/-- The route of a line with three fields or more. -/
def lineRoute (line : Str) : Option Route :=
  match splitWhitespace line with
  | iface :: destination :: gateway :: _ =>
      some { iface := iface, destination := destination, gateway := gateway }
  | _ =>
      none

/-- A text is a header line and one line for each of the routes. -/
def IsRouteTable (text : Str) (routes : List Route) : Prop :=
  lines text ≠ [] ∧
    ((lines text).drop 1).map lineRoute = routes.map some

instance (text : Str) (routes : List Route) :
    Decidable (IsRouteTable text routes) :=
  inferInstanceAs (Decidable (_ ∧ _))

/-- The interface of the first route with a zero destination. -/
def defaultInterface (routes : List Route) : Option Str :=
  (routes.find? fun route => route.destination == zeroAddress).map Route.iface

/-- A route is the first one whose given field is zero. -/
def FirstZero
    (field : Route → Str)
    (routes : List Route)
    (route : Route) :
    Prop :=
  field route = zeroAddress ∧
    ∃ before after,
      routes = before ++ route :: after ∧
        ∀ earlier ∈ before, field earlier ≠ zeroAddress

/--
The first default route and the first route without a gateway use the same
interface, or there is neither.
-/
def GatewayAgrees (routes : List Route) : Prop :=
  (∀ route ∈ routes,
    route.destination ≠ zeroAddress ∧ route.gateway ≠ zeroAddress) ∨
  ∃ onLink defaultRoute,
    FirstZero Route.gateway routes onLink ∧
      FirstZero Route.destination routes defaultRoute ∧
      onLink.iface = defaultRoute.iface

/-- The first route whose field is zero is what find returns. -/
theorem find?_eq_some_iff_firstZero
    {field : Route → Str}
    {routes : List Route}
    {route : Route} :
    (routes.find? fun route => field route == zeroAddress) = some route ↔
      FirstZero field routes route := by
  simp [List.find?_eq_some_iff_append, FirstZero]

/-- The loop returns the interface of the first route with a zero gateway. -/
theorem scanRoutes_eq
    {lines : List Str}
    {routes : List Route}
    (table : lines.map lineRoute = routes.map some) :
    scanRoutes lines =
      (routes.find? fun route => route.gateway == zeroAddress).map
        Route.iface := by
  induction lines generalizing routes with
  | nil =>
      cases routes with
      | nil =>
          rfl
      | cons route routes =>
          simp at table
  | cons line lines inductionHypothesis =>
      cases routes with
      | nil =>
          simp at table
      | cons route routes =>
          simp only [List.map_cons, List.cons.injEq] at table
          obtain ⟨first, later⟩ := table
          have rest := inductionHypothesis later
          rw [lineRoute] at first
          split at first
          next iface destination gateway more fields =>
            simp only [Option.some.injEq] at first
            subst first
            rw [scanRoutes, fields]
            simp only [List.head?_cons, Option.map_some, Option.getD_some]
            by_cases zero : gateway = zeroAddress
            · simp [zero]
            · simp [zero, rest]
          · simp at first

/-- A table with a zero in either field is not one without any. -/
theorem not_neither
    {field : Route → Str}
    {routes : List Route}
    {route : Route}
    (found : (routes.find? fun route => field route == zeroAddress) = some route) :
    ¬ ∀ route ∈ routes, field route ≠ zeroAddress := by
  intro neither
  have zero := List.find?_some found
  rw [beq_iff_eq] at zero
  exact neither route (List.mem_of_find?_eq_some found) zero

/-- The loop finds the default interface exactly if the gateways agree. -/
theorem default_route_found_iff
    (text : Str)
    (routes : List Route)
    (table : IsRouteTable text routes) :
    defaultRouteIface (some text) = defaultInterface routes ↔
      GatewayAgrees routes := by
  have code :
      defaultRouteIface (some text) =
        (routes.find? fun route => route.gateway == zeroAddress).map
          Route.iface :=
    scanRoutes_eq table.2
  rw [code, defaultInterface, GatewayAgrees]
  simp only [← find?_eq_some_iff_firstZero, forall_and]
  cases byGateway : routes.find? fun route => route.gateway == zeroAddress with
  | none =>
      cases byDestination :
          routes.find? fun route => route.destination == zeroAddress with
      | none =>
          rw [List.find?_eq_none] at byGateway byDestination
          simp only [beq_iff_eq] at byGateway byDestination
          exact iff_of_true rfl (.inl ⟨byDestination, byGateway⟩)
      | some defaultRoute =>
          refine iff_of_false (by simp) ?_
          rintro (⟨noDestination, -⟩ | ⟨_, _, found, -⟩)
          · exact not_neither byDestination noDestination
          · simp at found
  | some onLink =>
      cases byDestination :
          routes.find? fun route => route.destination == zeroAddress with
      | none =>
          refine iff_of_false (by simp) ?_
          rintro (⟨-, noGateway⟩ | ⟨_, _, -, found, -⟩)
          · exact not_neither byGateway noGateway
          · simp at found
      | some defaultRoute =>
          simp only [Option.map_some, Option.some.injEq]
          constructor
          · intro same
            exact .inr ⟨onLink, defaultRoute, rfl, rfl, same⟩
          · rintro (⟨-, noGateway⟩ | ⟨_, _, rfl, rfl, same⟩)
            · exact absurd noGateway (not_neither byGateway)
            · exact same

/-- A point-to-point link: its default route has no gateway. -/
theorem default_route_found_on_link :
    let text :=
      "Iface\tDestination\tGateway\nppp0\t00000000\t00000000\n".toList
    let ppp0 : Route :=
      { iface := "ppp0".toList
        destination := zeroAddress
        gateway := zeroAddress }
    IsRouteTable text [ppp0] ∧
      defaultRouteIface (some text) = defaultInterface [ppp0] := by
  intro text ppp0
  have table : IsRouteTable text [ppp0] := by decide +kernel
  refine ⟨table, (default_route_found_iff text [ppp0] table).mpr ?_⟩
  exact .inr ⟨ppp0, ppp0, ⟨rfl, [], [], rfl, by simp⟩,
    ⟨rfl, [], [], rfl, by simp⟩, rfl⟩

/--
A default route through a gateway and a bridge behind it: the loop skips the
first and names the bridge.
-/
theorem default_route_missed :
    ¬ ∀ text routes,
      IsRouteTable text routes →
        defaultRouteIface (some text) = defaultInterface routes := by
  intro always
  have wrong := always
    ("Iface\tDestination\tGateway\neth0\t00000000\t0101A8C0\n" ++
      "docker0\t000011AC\t00000000\n").toList
    [{ iface := "eth0".toList
       destination := zeroAddress
       gateway := "0101A8C0".toList },
     { iface := "docker0".toList
       destination := "000011AC".toList
       gateway := zeroAddress }]
    (by decide +kernel)
  exact absurd wrong (by decide +kernel)

end DnsServices.Microdoh3
