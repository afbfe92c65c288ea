/-
Module: Haulage.Proofs.TravelRows
Purpose: Which entries of the tables in a document a vehicle travels by.  The rows of a table are
  written one after the other and addressed as if each had an entry for every location.  So an
  entry is found in its row and column where the tables are square, and the builder, which counts
  the rows of the distances and nothing else, accepts others too.
Main exports: TravelDocument.IsSquare, Problem.TravelsBy, ProblemDocument.build_travelsBy,
  ProblemDocument.build_raggedRows
-/
import Haulage.Proofs.Lapses

namespace Haulage

variable {α : Type}

/-! ### Rows of entries -/

/-- An entry by its row and its column. -/
def entryAt? (rows : List (List α)) (row column : Nat) : Option α := rows[row]?.bind (·[column]?)

/-- A row for each of `n` locations, and in each row an entry for each of them. -/
def IsSquare (n : Nat) (rows : List (List α)) : Prop :=
  rows.length = n ∧ ∀ row ∈ rows, row.length = n

/-- Among rows of one length an entry is found by counting whole rows. -/
theorem getElem?_flatten_of_wide {rows : List (List α)} {n : Nat}
    (wide : ∀ row ∈ rows, row.length = n) (row : Nat) {column : Nat} (inRow : column < n) :
    rows.flatten[row * n + column]? = entryAt? rows row column := by
  induction rows generalizing row with
  | nil => simp [entryAt?]
  | cons first rest inductionHypothesis =>
      have width : first.length = n := wide first List.mem_cons_self
      cases row with
      | zero =>
          rw [List.flatten_cons, List.getElem?_append_left (by omega)]
          simp [entryAt?]
      | succ row =>
          have past : (row + 1) * n + column - first.length = row * n + column := by
            rw [width, Nat.succ_mul]
            omega
          have beyond : first.length ≤ (row + 1) * n + column := by
            rw [width, Nat.succ_mul]
            omega
          rw [List.flatten_cons, List.getElem?_append_right beyond, past,
            inductionHypothesis (fun other member => wide other (List.mem_cons_of_mem first member))]
          simp [entryAt?]

/-- Rows of one length, written one after the other. -/
theorem length_flatten_of_wide {rows : List (List α)} {n : Nat}
    (wide : ∀ row ∈ rows, row.length = n) : rows.flatten.length = rows.length * n := by
  rw [List.length_flatten, List.map_eq_replicate_iff.mpr wide, List.sum_replicate_nat]

namespace IsSquare

variable {n : Nat} {rows : List (List α)}

/-- A square table has an entry for each two locations. -/
theorem exists_entry (square : IsSquare n rows) {row column : Nat} (low : row < n)
    (inRow : column < n) : ∃ x, entryAt? rows row column = some x := by
  obtain ⟨long, wide⟩ := square
  have inside : row < rows.length := long ▸ low
  have width : rows[row].length = n := wide _ (List.getElem_mem inside)
  have found : column < rows[row].length := width ▸ inRow
  refine ⟨rows[row][column], ?_⟩
  simp only [entryAt?, List.getElem?_eq_getElem inside, Option.bind_some]
  exact List.getElem?_eq_getElem found

theorem length_flatten (square : IsSquare n rows) : rows.flatten.length = n * n := by
  rw [length_flatten_of_wide square.2, square.1]

end IsSquare

/-! ### The tables of a document -/

variable [Quantity α]

namespace TravelDocument

variable [PlaneLength α]

/-- The straight distances between points, a row for each of them. -/
def straightRows (points : List (Point α)) (rounded : Bool) : List (List α) :=
  points.map fun a => points.map fun b =>
    if rounded then Quantity.roundAway (a.distance b) else a.distance b

/-- The rows of the distances between locations at the given points. -/
def distanceRows (points : List (Point α)) : TravelDocument α → List (List α)
  | .straight rounded => straightRows points rounded
  | .tables distances _ _ => distances

/-- The rows of the travel times. -/
def timeRows (points : List (Point α)) : TravelDocument α → List (List α)
  | .straight rounded => straightRows points rounded
  | .tables _ times _ => times

/-- The rows of the costs, which are the distances where no costs are given. -/
def costRows (points : List (Point α)) : TravelDocument α → List (List α)
  | .straight rounded => straightRows points rounded
  | .tables distances _ costs => costs.getD distances

/-- All tables have an entry for each two locations, and none that is left over. -/
structure IsSquare (points : List (Point α)) (d : TravelDocument α) : Prop where
  distances : Haulage.IsSquare points.length (d.distanceRows points)
  times : Haulage.IsSquare points.length (d.timeRows points)
  costs : Haulage.IsSquare points.length (d.costRows points)

end TravelDocument

/-- Straight distances are written out like any other table. -/
theorem ProfileDocument.table_build [PlaneLength α] (points : List (Point α))
    (d : ProfileDocument α) :
    (d.build points).table = .ofRows (d.travel.distanceRows points) (d.travel.timeRows points)
      (some (d.travel.costRows points)) := by
  unfold ProfileDocument.build
  cases d.travel with
  | straight rounded =>
      simp [TravelTable.ofPoints, TravelTable.ofRows, TravelDocument.distanceRows,
        TravelDocument.timeRows, TravelDocument.costRows, TravelDocument.straightRows]
  | tables distances times costs => rfl

/-! ### Lookups -/

namespace Problem

/-- Between two locations a vehicle travels by the given entries of distances, times and costs, of
which each may be missing. -/
structure TravelsBy (p : Problem α) (v : Vehicle α) (a b : Nat) (distance time cost : Option α) :
    Prop where
  distance : p.travelDistance v a b = orOutOfTable distance
  time : p.travelTime v (some a) (some b) =
    orOutOfTable time >>= fun seconds => (Duration.ofTravelTime seconds).mapError .fault
  cost : p.travelCost v (some a) (some b) = orOutOfTable cost

theorem travelsBy_ofRows {p : Problem α} {v : Vehicle α} {profile : Profile α}
    {distances times costs : List (List α)} (follows : p.profiles[v.profile]? = some profile)
    (written : profile.table = .ofRows distances times (some costs)) {a b : Nat} (apart : a ≠ b) :
    p.TravelsBy v a b distances.flatten[a * distances.length + b]?
      times.flatten[a * distances.length + b]? costs.flatten[a * distances.length + b]? := by
  have entry (values : List α) :
      (profile.table.entry values.toArray a b).mapError .fault =
        orOutOfTable values[a * distances.length + b]? := by
    rw [written]
    simp only [TravelTable.entry, TravelTable.ofRows, if_neg apart, List.getElem?_toArray]
    cases values[a * distances.length + b]? with
    | none => rfl
    | some value => rfl
  refine ⟨?_, ?_, ?_⟩
  · rw [travelDistance, lookUp, follows]
    simpa [TravelTable.distance, written, TravelTable.ofRows] using entry distances.flatten
  · have seconds := entry times.flatten
    rw [← seconds]
    simp only [travelTime, lookUp, follows, TravelTable.time, if_neg apart, written,
      TravelTable.ofRows]
    cases TravelTable.entry _ times.flatten.toArray a b with
    | error fault => rfl
    | ok value => rfl
  · rw [travelCost, lookUp, follows]
    simpa [TravelTable.cost, written, TravelTable.ofRows] using entry costs.flatten

end Problem

/-! ### Building -/

/-- A problem error that stands for an entry which was needed and is not there. -/
def ProblemError.isFault : ProblemError → Bool
  | .fault _ => true
  | _ => false

omit [Quantity α] in
theorem ProblemParts.isFault_firstError? {locations : Nat} {destinations : List (Destination α)}
    {vehicles : List (Vehicle α)} {profiles : List (Profile α)} {sites : List (UnloadSite α)}
    {e : ProblemError} (wrong : firstError? locations destinations vehicles profiles sites = some e) :
    e.isFault = false := by
  simp only [firstError?, Option.orElse_eq_orElse, Option.orElse_eq_or, Option.or_eq_some_iff,
    Option.map_eq_some_iff, List.findSome?_eq_some_iff] at wrong
  rcases wrong with ⟨_, _, rfl⟩ | ⟨_, ⟨_, _, rfl⟩ | ⟨_, ⟨_, v, _, _, found, _⟩ | ⟨_, _, _, rfl⟩⟩⟩
  · rfl
  · rfl
  · split at found
    · cases found
      rfl
    · split at found
      · cases found
        rfl
      · cases found
  · rfl

namespace ProblemParts

variable {locations : Nat} {vehicles : List (Vehicle α)} {profiles : List (Profile α)}

/-- What holds of a profile that does not have a cost for each two locations. -/
def LacksCosts (locations : Nat) (profile : Profile α) : Prop :=
  profile.table.costs.size < locations * locations

theorem lacksCosts_of_cost_eq_error {profile : Profile α} {a b : Nat} {fault : Fault}
    (sized : profile.table.size = locations) (leaves : a < locations) (arrives : b < locations)
    (failed : profile.table.cost a b = .error fault) : LacksCosts locations profile := by
  rw [← sized] at leaves arrives
  rw [LacksCosts, ← sized]
  exact (TravelTable.entry_eq_error leaves arrives failed).2

omit [Quantity α] in
theorem exists_profile_of_vehicle {v : Vehicle α} (profiled : v.profile < profiles.length) :
    ∃ profile ∈ profiles, profiles.toArray[v.profile]? = some profile :=
  ⟨profiles[v.profile], List.getElem_mem profiled, by simp [profiled]⟩

theorem lacksCosts_of_depotCosts {fault : Fault}
    (driven : ∀ v ∈ vehicles, v.profile < profiles.length ∧
      ∀ depot, v.depot = some depot → depot < locations)
    (sized : ∀ profile ∈ profiles, profile.table.size = locations)
    (failed : depotCosts locations vehicles profiles.toArray = .error fault) :
    ∃ profile ∈ profiles, LacksCosts locations profile := by
  unfold depotCosts at failed
  split at failed
  · cases failed
  · obtain ⟨location, listed, fails⟩ := exists_of_mapM_eq_error failed
    rcases bind_eq_error.mp fails with lacking | ⟨_, _, done⟩
    · obtain ⟨v, member, fails⟩ := exists_of_filterMapM_eq_error lacking
      obtain ⟨profiled, housed⟩ := driven v member
      obtain ⟨profile, among, follows⟩ := exists_profile_of_vehicle profiled
      rw [follows] at fails
      cases home : v.depot with
      | none =>
          rw [home] at fails
          cases fails
      | some depot =>
          rw [home] at fails
          rcases bind_eq_error.mp fails with missing | ⟨_, _, done⟩
          · exact ⟨profile, among, lacksCosts_of_cost_eq_error (sized profile among)
              (housed depot home) (List.mem_range.mp listed) missing⟩
          · cases done
    · cases done

theorem lacksCosts_of_longestLeg {destinations : List (Destination α)} {fault : Fault}
    (served : ∀ d ∈ destinations, d.location < locations)
    (driven : ∀ v ∈ vehicles, v.profile < profiles.length)
    (sized : ∀ profile ∈ profiles, profile.table.size = locations)
    (failed : longestLeg destinations vehicles profiles.toArray = .error fault) :
    ∃ profile ∈ profiles, LacksCosts locations profile := by
  unfold longestLeg at failed
  cases vehicles with
  | nil => cases failed
  | cons v others =>
      obtain ⟨profile, among, follows⟩ :=
        exists_profile_of_vehicle (driven v List.mem_cons_self)
      simp only [follows] at failed
      obtain ⟨a, leaving, _, fails⟩ := exists_of_foldlM_eq_error failed
      obtain ⟨b, arriving, _, fails⟩ := exists_of_foldlM_eq_error fails
      rcases bind_eq_error.mp fails with missing | ⟨_, _, done⟩
      · exact ⟨profile, among, lacksCosts_of_cost_eq_error (sized profile among)
          (served a leaving) (served b arriving) missing⟩
      · cases done

/-- Building fails for want of an entry only where some profile has too few costs. -/
theorem lacksCosts_of_build {parts : ProblemParts α} {points : List (Point α)}
    (located : parts.points = some points) (profiled : parts.profiles = some profiles)
    {e : ProblemError} (failed : parts.build = .error e) (lacking : e.isFault = true) :
    ∃ profile ∈ profiles, LacksCosts points.length profile := by
  unfold build at failed
  rw [located, profiled] at failed
  split at failed
  · cases failed
    cases lacking
  · cases failed
    cases lacking
  · cases failed
    cases lacking
  · cases failed
    cases lacking
  · rename_i listed served driven travelled equalPoints _ _ equalProfiles
    cases equalPoints
    cases equalProfiles
    dsimp only at failed
    split at failed
    · rename_i wrong
      cases failed
      rw [isFault_firstError? wrong] at lacking
      cases lacking
    · rename_i sound
      obtain ⟨served, _, driven, sized⟩ := firstError?_eq_none sound
      rcases bind_eq_error.mp failed with averaging | ⟨_, _, failed⟩
      · obtain ⟨fault, fails, _⟩ := mapError_eq_error.mp averaging
        exact lacksCosts_of_depotCosts driven sized fails
      · rcases bind_eq_error.mp failed with measuring | ⟨_, _, done⟩
        · obtain ⟨fault, fails, _⟩ := mapError_eq_error.mp measuring
          exact lacksCosts_of_longestLeg served (fun v member => (driven v member).1) sized fails
        · cases done

end ProblemParts

/-! ### Documents -/

theorem DestinationDocument.not_fault_of_build {d : DestinationDocument α} {e : DocumentError}
    (failed : d.build = .error e) (fault : Fault) : e.cause? ≠ some (.fault fault) := by
  obtain ⟨cause, fails, rfl⟩ := mapError_eq_error.mp failed
  simp only [DestinationParts.build] at fails
  split at fails
  · cases fails
    simp [DocumentError.cause?]
  · cases fails

theorem VehicleDocument.not_fault_of_build {profiles : List (ProfileDocument α)}
    {d : VehicleDocument α} {e : DocumentError} (failed : d.build profiles = .error e)
    (fault : Fault) : e.cause? ≠ some (.fault fault) := by
  unfold VehicleDocument.build at failed
  split at failed
  · cases failed
    simp [DocumentError.cause?]
  · obtain ⟨cause, fails, rfl⟩ := mapError_eq_error.mp failed
    simp only [VehicleParts.build] at fails
    split at fails
    · cases fails
      simp [DocumentError.cause?]
    · cases fails

/-- A vehicle follows the first profile of the name that its document gives. -/
theorem VehicleDocument.profile_of_build {profiles : List (ProfileDocument α)}
    {d : VehicleDocument α} {v : Vehicle α} (built : d.build profiles = .ok v) :
    ∃ profile, profiles[v.profile]? = some profile ∧
      profiles.find? (·.id = d.profile) = some profile := by
  unfold VehicleDocument.build at built
  split at built
  · cases built
  · rename_i i found
    have follows : v.profile = i := by
      simp only [mapError_eq_ok, VehicleParts.build] at built
      split at built
      · cases built
      · cases built
        rfl
    obtain ⟨inside, first⟩ := List.findIdx?_eq_some_iff_findIdx_eq.mp found
    rw [follows]
    refine ⟨profiles[i], List.getElem?_eq_getElem inside, ?_⟩
    rw [List.find?_eq_getElem?_findIdx, first, List.getElem?_eq_getElem inside]

/-- The parts are taken over as they are. -/
theorem ProblemParts.eq_of_build {points : List (Point α)} {destinations : List (Destination α)}
    {vehicles : List (Vehicle α)} {profiles : List (Profile α)} {sites : Option (List (UnloadSite α))}
    {p : Problem α}
    (built : build ⟨some points, some destinations, some vehicles, some profiles, sites⟩ = .ok p) :
    p.points = points.toArray ∧ p.vehicles = vehicles.toArray ∧ p.profiles = profiles.toArray := by
  simp only [build] at built
  split at built
  · cases built
  · simp only [bind_eq_ok] at built
    rcases built with ⟨_, _, _, _, equal⟩
    cases equal
    exact ⟨rfl, rfl, rfl⟩

namespace ProblemDocument

variable [PlaneLength α]

/-- The parts that a document describes, once its destinations and vehicles are built. -/
def partsWith (d : ProblemDocument α) (destinations : List (Destination α))
    (vehicles : List (Vehicle α)) : ProblemParts α :=
  { points := some d.points, destinations := some destinations, vehicles := some vehicles,
    profiles := some (d.profiles.map (·.build d.points)), sites := some (d.sites.map (·.build)) }

theorem build_eq_bind (d : ProblemDocument α) :
    d.build = d.destinations.mapM (·.build) >>= fun destinations =>
      d.vehicles.mapM (·.build d.profiles) >>= fun vehicles =>
        (d.partsWith destinations vehicles).build.mapError .problem := rfl

/-- A document is refused for want of an entry only where some profile has too few costs. -/
theorem short_of_build {d : ProblemDocument α} {e : DocumentError} (failed : d.build = .error e)
    {fault : Fault} (lacking : e.cause? = some (.fault fault)) :
    ∃ profile ∈ d.profiles, (profile.travel.costRows d.points).flatten.length <
      d.points.length * d.points.length := by
  rw [build_eq_bind] at failed
  rcases bind_eq_error.mp failed with served | ⟨destinations, _, failed⟩
  · obtain ⟨described, _, fails⟩ := exists_of_mapM_eq_error served
    exact absurd lacking (DestinationDocument.not_fault_of_build fails fault)
  · rcases bind_eq_error.mp failed with driven | ⟨vehicles, _, failed⟩
    · obtain ⟨described, _, fails⟩ := exists_of_mapM_eq_error driven
      exact absurd lacking (VehicleDocument.not_fault_of_build fails fault)
    · obtain ⟨cause, fails, rfl⟩ := mapError_eq_error.mp failed
      have isFault : cause.isFault = true := by
        cases lacking
        rfl
      obtain ⟨profile, built, lacks⟩ :=
        ProblemParts.lacksCosts_of_build rfl rfl fails isFault
      obtain ⟨described, member, rfl⟩ := List.mem_map.mp built
      refine ⟨described, member, ?_⟩
      rw [ProblemParts.LacksCosts, described.table_build] at lacks
      simpa [TravelTable.ofRows] using lacks

/-- Every vehicle that a document describes travels by the rows of the profile that it names, each
row taken to have as many entries as there are locations. -/
theorem positions_of_build {d : ProblemDocument α} {p : Problem α} (built : d.build = .ok p)
    {i : Nat} {v : Vehicle α} (known : p.vehicle i = .ok v) :
    p.points.size = d.points.length ∧
    ∃ described profile, d.vehicles[i]? = some described ∧
      d.profiles.find? (·.id = described.profile) = some profile ∧
      ∀ a b, a ≠ b → p.TravelsBy v a b
        (profile.travel.distanceRows d.points).flatten[a * d.points.length + b]?
        (profile.travel.timeRows d.points).flatten[a * d.points.length + b]?
        (profile.travel.costRows d.points).flatten[a * d.points.length + b]? := by
  simp only [build_eq_bind, bind_eq_ok, mapError_eq_ok] at built
  obtain ⟨destinations, _, vehicles, driven, complete⟩ := built
  obtain ⟨samePoints, sameVehicles, sameProfiles⟩ := ProblemParts.eq_of_build complete
  have located : p.points.size = d.points.length := by rw [samePoints, List.size_toArray]
  have listed : vehicles[i]? = some v := by
    rw [Problem.vehicle, orOutOfTable_eq_ok, sameVehicles, List.getElem?_toArray] at known
    exact known
  obtain ⟨described, there, fromDocument⟩ := getElem?_of_mapM_eq_ok driven listed
  obtain ⟨profile, follows, named⟩ := VehicleDocument.profile_of_build fromDocument
  have among : p.profiles[v.profile]? = some (profile.build d.points) := by
    rw [sameProfiles, List.getElem?_toArray, List.getElem?_map, follows, Option.map_some]
  have counted : (profile.travel.distanceRows d.points).length = d.points.length := by
    have sized := (ProblemParts.linked_of_build complete).tables _ (Array.mem_of_getElem? among)
    rwa [profile.table_build, located] at sized
  refine ⟨located, described, profile, there, named, fun a b apart => ?_⟩
  have travels := Problem.travelsBy_ofRows among (profile.table_build d.points) apart
  rwa [counted] at travels

/-- A document whose tables are square is not refused for want of an entry, and every vehicle
travels by the entries in row and column of the profile that it names.  Other documents may be
accepted too: each table is then read as if its rows, written one after the other, were as long as
there are locations. -/
theorem build_travelsBy (d : ProblemDocument α) :
    (∀ e fault, d.build = .error e → e.cause? = some (.fault fault) →
      ∃ profile ∈ d.profiles, ¬ profile.travel.IsSquare d.points ∧
        (profile.travel.costRows d.points).flatten.length <
          d.points.length * d.points.length) ∧
    ∀ p, d.build = .ok p → ∀ i v, p.vehicle i = .ok v →
      ∃ described profile, d.vehicles[i]? = some described ∧
        d.profiles.find? (·.id = described.profile) = some profile ∧
        ∀ a b, a < p.points.size → b < p.points.size → a ≠ b →
          p.TravelsBy v a b
            (profile.travel.distanceRows d.points).flatten[a * p.points.size + b]?
            (profile.travel.timeRows d.points).flatten[a * p.points.size + b]?
            (profile.travel.costRows d.points).flatten[a * p.points.size + b]? ∧
          (profile.travel.IsSquare d.points → ∃ distance time cost,
            entryAt? (profile.travel.distanceRows d.points) a b = some distance ∧
            entryAt? (profile.travel.timeRows d.points) a b = some time ∧
            entryAt? (profile.travel.costRows d.points) a b = some cost ∧
            p.TravelsBy v a b (some distance) (some time) (some cost)) := by
  constructor
  · intro e fault failed lacking
    obtain ⟨profile, member, short⟩ := short_of_build failed lacking
    refine ⟨profile, member, fun square => ?_, short⟩
    exact Nat.ne_of_lt short square.costs.length_flatten
  · intro p built i v known
    obtain ⟨located, described, profile, there, named, travels⟩ := positions_of_build built known
    refine ⟨described, profile, there, named, fun a b leaves arrives apart => ?_⟩
    have byPosition := travels a b apart
    rw [located] at leaves arrives ⊢
    refine ⟨byPosition, fun square => ?_⟩
    obtain ⟨distance, inDistances⟩ := square.distances.exists_entry leaves arrives
    obtain ⟨time, inTimes⟩ := square.times.exists_entry leaves arrives
    obtain ⟨cost, inCosts⟩ := square.costs.exists_entry leaves arrives
    refine ⟨distance, time, cost, inDistances, inTimes, inCosts, ?_⟩
    rw [getElem?_flatten_of_wide square.distances.2 a arrives, inDistances,
      getElem?_flatten_of_wide square.times.2 a arrives, inTimes,
      getElem?_flatten_of_wide square.costs.2 a arrives, inCosts] at byPosition
    exact byPosition

end ProblemDocument

/-! ### Tables that are not square -/

/-- Lengths along an axis, which is all that places on one line need. -/
@[reducible] def PlaneLength.alongAxis : PlaneLength Rat := ⟨fun x y => max (x + y) (-(x + y))⟩

/-- A vehicle that serves a destination one location away from its depot, with the given rows of
distances between the two. -/
def shuttle (distances : List (List Rat)) (depot stop : Nat) : ProblemDocument Rat :=
  { id := none, points := [⟨0, 0⟩, ⟨1, 0⟩],
    destinations := [⟨"d", stop, none, none, none⟩],
    profiles := [⟨"road", .tables distances [[0, 5], [7, 0]] none⟩],
    vehicles := [⟨"v", "road", none, none, none, some depot, none, none, none⟩],
    sites := [], parameters := none }

/-- What a vehicle of a document travels by on the way from one location to another. -/
def ProblemDocument.travelOf (d : ProblemDocument Rat) (i a b : Nat) :
    Except DocumentError (Except Failure (Rat × Duration × Rat)) :=
  (@build Rat _ .alongAxis d).map fun p => do
    let v ← p.vehicle i
    .ok (← p.travelDistance v a b, ← p.travelTime v (some a) (some b),
      ← p.travelCost v (some a) (some b))

/-- Too long a row is accepted, and moves all entries behind it; too short a table is no problem
error, but ends in a lookup beyond its end. -/
theorem ProblemDocument.build_raggedRows :
    (shuttle [[0, 5, 9], [7, 0]] 0 1).travelOf 0 1 0 = .ok (.ok (9, .ofSeconds 7, 9)) ∧
      entryAt? [[0, 5, 9], [(7 : Rat), 0]] 1 0 = some 7 ∧
      (shuttle [[0], [7]] 1 0).travelOf 0 1 0 = .error (.problem (.fault .outOfTable)) := by
  decide +kernel

theorem ProblemDocument.build_travelsBy_shuttle :
    (∃ p v, @build Rat _ .alongAxis (shuttle [[0, 5], [7, 0]] 0 1) = .ok p ∧
      p.vehicle 0 = .ok v ∧ p.points.size = 2 ∧
      p.TravelsBy v 1 0 (some 7) (some 7) (some 7)) ∧
    ∃ e, @build Rat _ .alongAxis (shuttle [[0], [7]] 1 0) = .error e ∧
      e.cause? = some (.fault .outOfTable) ∧
      ∃ profile ∈ (shuttle [[0], [7]] 1 0).profiles,
        (@TravelDocument.costRows Rat _ .alongAxis [⟨0, 0⟩, ⟨1, 0⟩] profile.travel).flatten.length <
          4 := by
  constructor
  · have run : (@build Rat _ .alongAxis (shuttle [[0, 5], [7, 0]] 0 1)).map
        (fun p => (p.points.size, (p.vehicle 0).isOk)) = .ok (2, true) := by decide +kernel
    cases built : @build Rat _ .alongAxis (shuttle [[0, 5], [7, 0]] 0 1) with
    | error e =>
        rw [built] at run
        cases run
    | ok p =>
        rw [built] at run
        have counted : p.points.size = 2 ∧ (p.vehicle 0).isOk = true := by
          simpa [Except.map] using run
        cases known : p.vehicle 0 with
        | error e => simp [known, Except.isOk, Except.toBool] at counted
        | ok v =>
            obtain ⟨described, profile, there, named, travels⟩ :=
              (@build_travelsBy Rat _ .alongAxis (shuttle [[0, 5], [7, 0]] 0 1)).2 p built 0 v known
            cases there
            cases named
            have rows : IsSquare 2 [[0, 5], [(7 : Rat), 0]] := ⟨rfl, by decide +kernel⟩
            obtain ⟨_, byRow⟩ := travels 1 0 (by omega) (by omega) (by decide)
            obtain ⟨distance, time, cost, inDistances, inTimes, inCosts, entries⟩ :=
              byRow (@TravelDocument.IsSquare.mk Rat _ .alongAxis _ _ rows rows rows)
            cases inDistances
            cases inTimes
            cases inCosts
            exact ⟨p, v, rfl, known, counted.1, entries⟩
  · have run : (@build Rat _ .alongAxis (shuttle [[0], [7]] 1 0)).map (fun _ => ()) =
        .error (.problem (.fault .outOfTable)) := by decide +kernel
    cases built : @build Rat _ .alongAxis (shuttle [[0], [7]] 1 0) with
    | ok p =>
        rw [built] at run
        cases run
    | error e =>
        rw [built] at run
        cases run
        obtain ⟨profile, member, _, short⟩ :=
          (@build_travelsBy Rat _ .alongAxis (shuttle [[0], [7]] 1 0)).1 _ _ built rfl
        exact ⟨_, rfl, rfl, profile, member, short⟩

end Haulage
