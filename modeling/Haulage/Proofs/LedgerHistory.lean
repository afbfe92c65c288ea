/-
Module: Haulage.Proofs.LedgerHistory
Purpose: What the book of a plan holds after any history of writing and clearing.  At every place the
  content of the last writing there is read that nothing later has reached, and nothing where there is
  none, however far the book has grown.
Main exports: Ledger.Place, Ledger.read, Ledger.put, Ledger.Writing, Ledger.Writing.Reaches,
  Ledger.Leaves, Ledger.after_leaves
-/
import Mathlib.Data.List.Induction
import Haulage.Plan.Ledger

namespace Haulage

namespace Ledger

variable {α : Type}

/-! ### Places -/

/-- A place of the book that is written as a whole. -/
inductive Place where
  | load (route trip : Nat)
  | unloadLocation (route trip : Nat)
  | tripCount (route : Nat)
  | needsBase (route : Nat)
  | stops (route : Nat)
  | startSlack (route : Nat)
  | endSlack (route : Nat)
deriving DecidableEq

namespace Place

/-- The route that a place belongs to. -/
def route : Place → Nat
  | load route _ | unloadLocation route _ | tripCount route | needsBase route | stops route
  | startSlack route | endSlack route => route

/-- What can be written at a place. -/
def Content (α : Type) : Place → Type
  | load _ _ => Load α
  | unloadLocation _ _ | tripCount _ => Nat
  | needsBase _ => Bool
  | stops _ => List (StopEntry α)
  | startSlack _ | endSlack _ => Slack α

/-- What is read at a place.  Of the stops of a route there are none where none were written; at any
other place it is seen whether something was. -/
def Reading (α : Type) : Place → Type
  | stops _ => List (StopEntry α)
  | place => Option (place.Content α)

/-- The reading of a place at which nothing is written. -/
def absent : (place : Place) → place.Reading α
  | stops _ => []
  | load _ _ | unloadLocation _ _ | tripCount _ | needsBase _ | startSlack _ | endSlack _ => none

/-- The reading of a place at which something is written. -/
def present : (place : Place) → place.Content α → place.Reading α
  | stops _, content => content
  | load _ _, content | unloadLocation _ _, content | tripCount _, content | needsBase _, content
  | startSlack _, content | endSlack _, content => some content

end Place

/-- Reads a place. -/
def read (l : Ledger α) : (place : Place) → place.Reading α
  | .load route trip => l.load? route trip
  | .unloadLocation route trip => l.unloadLocation? route trip
  | .tripCount route => l.tripCount? route
  | .needsBase route => l.needsBase? route
  | .stops route => (l.entry route).stops
  | .startSlack route => l.startSlack? route
  | .endSlack route => l.endSlack? route

/-- Writes a place, and gives back what was read there before. -/
def put (l : Ledger α) : (place : Place) → place.Content α → place.Reading α × Ledger α
  | .load route trip, load => l.putLoad route trip load
  | .unloadLocation route trip, location => l.putUnloadLocation route trip location
  | .tripCount route, count => l.putTripCount route count
  | .needsBase route, needed => l.putNeedsBase route needed
  | .stops route, stops => l.putStops route stops
  | .startSlack route, slack => l.putStartSlack route slack
  | .endSlack route, slack => l.putEndSlack route slack

/-! ### Writings -/

/-- What can be done to the book. -/
inductive Writing (α : Type) where
  | put (place : Place) (content : place.Content α)
  | clearTrips (route : Nat)
  | clearRoute (route : Nat)
  | clear

namespace Writing

/-- The book after a writing. -/
def apply (l : Ledger α) : Writing α → Ledger α
  | put place content => (l.put place content).2
  | clearTrips route => l.clearTrips route
  | clearRoute route => l.clearRoute route
  | clear => l.clear

/-- The places that a writing concerns.  Clearing what follows from the stops of a route does not
concern whether the job at hand needs a new trip there. -/
def Reaches : Writing α → Place → Prop
  | put place _, other => place = other
  | clearTrips route, other => other.route = route ∧ other ≠ .needsBase route
  | clearRoute route, other => other.route = route
  | clear, _ => True

end Writing

/-- The book after a history of writings, the oldest one first. -/
def after (l : Ledger α) (history : List (Writing α)) : Ledger α := history.foldl Writing.apply l

/-- What a history leaves at a place of a book that was blank at first: what was put there last, if
nothing later reaches the place, and nothing if everything that was put there is reached later. -/
inductive Leaves (history : List (Writing α)) (place : Place) : place.Reading α → Prop where
  | content (earlier later : List (Writing α)) (content : place.Content α)
      (split : history = earlier ++ .put place content :: later)
      (stands : ∀ w ∈ later, ¬ w.Reaches place) : Leaves history place (place.present content)
  | nothing
      (gone : ∀ earlier later content, history = earlier ++ .put place content :: later →
        ∃ w ∈ later, w.Reaches place) : Leaves history place place.absent

/-! ### The entry of a route

A place is read off the entry of its route, and written by a change of that entry. -/

/-- Reads a place off the entry of its route. -/
def readEntry (r : RouteEntry α) : (place : Place) → place.Reading α
  | .load _ trip => (r.trips[trip]?.getD .unknown).load
  | .unloadLocation _ trip => (r.trips[trip]?.getD .unknown).unloadLocation
  | .tripCount _ => r.tripCount
  | .needsBase _ => r.needsBase
  | .stops _ => r.stops
  | .startSlack _ => r.startSlack
  | .endSlack _ => r.endSlack

/-- Writes a place in the entry of its route. -/
def writeEntry : (place : Place) → place.Content α → RouteEntry α → RouteEntry α
  | .load _ trip, load => (·.modifyTrip trip fun t => { t with load := some load })
  | .unloadLocation _ trip, location =>
    (·.modifyTrip trip fun t => { t with unloadLocation := some location })
  | .tripCount _, count => ({ · with tripCount := some count })
  | .needsBase _, needed => ({ · with needsBase := some needed })
  | .stops _, stops => ({ · with stops := stops })
  | .startSlack _, slack => ({ · with startSlack := some slack })
  | .endSlack _, slack => ({ · with endSlack := some slack })

theorem read_eq (l : Ledger α) (place : Place) :
    l.read place = readEntry (l.entry place.route) place := by
  cases place <;> rfl

theorem put_eq (l : Ledger α) (place : Place) (content : place.Content α) :
    l.put place content =
      (l.read place, l.modifyEntry place.route (writeEntry place content)) := by
  cases place <;> rfl

theorem readEntry_unknown (place : Place) :
    readEntry (.unknown : RouteEntry α) place = place.absent := by
  cases place <;> rfl

theorem readEntry_writeEntry (r : RouteEntry α) (place : Place) (content : place.Content α) :
    readEntry (writeEntry place content r) place = place.present content := by
  cases place with
  | load route trip =>
      change ((r.modifyTrip trip _).trips[trip]?.getD .unknown).load = some content
      rw [getD_modifyTrip, if_pos rfl]
      rfl
  | unloadLocation route trip =>
      change ((r.modifyTrip trip _).trips[trip]?.getD .unknown).unloadLocation = some content
      rw [getD_modifyTrip, if_pos rfl]
      rfl
  | tripCount | needsBase | stops | startSlack | endSlack => rfl

/-- A change of a trip is read at no place whose content it keeps. -/
theorem readEntry_modifyTrip_of_keeps (r : RouteEntry α) (trip : Nat) (f : TripEntry α → TripEntry α)
    (other : Place) (load : ∀ route t, other = .load route trip → (f t).load = t.load)
    (unloadLocation : ∀ route t, other = .unloadLocation route trip →
      (f t).unloadLocation = t.unloadLocation) :
    readEntry (r.modifyTrip trip f) other = readEntry r other := by
  cases other with
  | load route second =>
      change ((r.modifyTrip trip f).trips[second]?.getD .unknown).load = _
      rw [getD_modifyTrip]
      split
      · subst second; exact load route _ rfl
      · rfl
  | unloadLocation route second =>
      change ((r.modifyTrip trip f).trips[second]?.getD .unknown).unloadLocation = _
      rw [getD_modifyTrip]
      split
      · subst second; exact unloadLocation route _ rfl
      · rfl
  | tripCount | needsBase | stops | startSlack | endSlack => rfl

/-- What is written at a place of a route is not read at the other places of that route. -/
theorem readEntry_writeEntry_of_ne (r : RouteEntry α) {place other : Place}
    (onRoute : place.route = other.route) (apart : place ≠ other) (content : place.Content α) :
    readEntry (writeEntry place content r) other = readEntry r other := by
  cases place with
  | load route trip =>
      refine readEntry_modifyTrip_of_keeps r trip _ other ?_ fun _ _ _ => rfl
      rintro _ _ rfl
      exact absurd (congrArg (Place.load · trip) onRoute) apart
  | unloadLocation route trip =>
      refine readEntry_modifyTrip_of_keeps r trip _ other (fun _ _ _ => rfl) ?_
      rintro _ _ rfl
      exact absurd (congrArg (Place.unloadLocation · trip) onRoute) apart
  | tripCount | needsBase | stops | startSlack | endSlack =>
      cases other <;> first | rfl | exact absurd (congrArg _ onRoute) apart

/-! ### One writing -/

theorem entry_blank (n route : Nat) : (blank n : Ledger α).entry route = .unknown := by
  rw [entry, blank, List.getElem?_replicate]
  split <;> rfl

theorem entry_clear (l : Ledger α) (route : Nat) : l.clear.entry route = .unknown := by
  rw [entry, clear, List.getElem?_map]
  cases l.routes[route]? <;> rfl

theorem read_blank (n : Nat) (place : Place) : (blank n : Ledger α).read place = place.absent := by
  rw [read_eq, entry_blank, readEntry_unknown]

theorem read_put (l : Ledger α) (place : Place) (content : place.Content α) :
    (l.put place content).2.read place = place.present content := by
  rw [put_eq, read_eq, entry_modifyEntry_self, readEntry_writeEntry]

/-- A place that a writing does not reach reads as before. -/
theorem read_apply_of_not_reaches (l : Ledger α) {w : Writing α} {place : Place}
    (apart : ¬ w.Reaches place) : (w.apply l).read place = l.read place := by
  rw [read_eq, read_eq]
  cases w with
  | put other content =>
      rw [Writing.apply, put_eq]
      by_cases onRoute : other.route = place.route
      · rw [← onRoute, entry_modifyEntry_self]
        exact readEntry_writeEntry_of_ne _ onRoute apart content
      · rw [entry_modifyEntry_of_ne _ onRoute]
  | clearTrips route =>
      by_cases onRoute : place.route = route
      · -- Only whether a new trip is needed is left of the route, and that was kept.
        obtain rfl : place = .needsBase route := by_contra fun other => apart ⟨onRoute, other⟩
        rw [Writing.apply, clearTrips, Place.route, entry_modifyEntry_self]
        rfl
      · rw [Writing.apply, clearTrips, entry_modifyEntry_of_ne _ (Ne.symm onRoute)]
  | clearRoute route =>
      rw [Writing.apply, clearRoute, entry_modifyEntry_of_ne _ (Ne.symm apart)]
  | clear => exact absurd trivial apart

/-- A writing that reaches a place leaves there what it puts, and nothing if it clears. -/
theorem read_apply_of_reaches (l : Ledger α) {w : Writing α} {place : Place}
    (reached : w.Reaches place) :
    (∃ content, w = .put place content ∧ (w.apply l).read place = place.present content) ∨
      (∀ content, w ≠ .put place content) ∧ (w.apply l).read place = place.absent := by
  cases w with
  | put other content =>
      obtain rfl : other = place := reached
      exact .inl ⟨content, rfl, read_put l other content⟩
  | clearTrips route =>
      refine .inr ⟨fun _ => nofun, ?_⟩
      obtain ⟨rfl, other⟩ := reached
      rw [Writing.apply, clearTrips, read_eq, entry_modifyEntry_self]
      cases place with
      | needsBase => exact absurd rfl other
      | load | unloadLocation | tripCount | stops | startSlack | endSlack => rfl
  | clearRoute route =>
      refine .inr ⟨fun _ => nofun, ?_⟩
      obtain rfl : place.route = route := reached
      rw [Writing.apply, clearRoute, read_eq, entry_modifyEntry_self, readEntry_unknown]
  | clear =>
      refine .inr ⟨fun _ => nofun, ?_⟩
      rw [Writing.apply, read_eq, entry_clear, readEntry_unknown]

/-! ### A longer history -/

namespace Leaves

variable {history : List (Writing α)} {place : Place} {reading : place.Reading α}

/-- A writing of a history that is longer by one is the last one, or stood in the history before. -/
theorem split_concat {w v : Writing α} {earlier later : List (Writing α)}
    (split : history ++ [w] = earlier ++ v :: later) :
    later = [] ∧ w = v ∨ ∃ rest, later = rest ++ [w] ∧ history = earlier ++ v :: rest := by
  obtain rfl | ⟨rest, last, rfl⟩ := later.eq_nil_or_concat
  · exact .inl ⟨rfl, (List.append_inj' split rfl).2 |> List.singleton_inj.mp⟩
  · rw [List.concat_eq_append, ← List.cons_append, ← List.append_assoc] at split
    obtain ⟨front, ⟨⟩⟩ := List.append_inj' split rfl
    exact .inr ⟨rest, List.concat_eq_append, front⟩

/-- A place is left as it was by a writing that does not reach it. -/
theorem concat (left : Leaves history place reading) {w : Writing α} (apart : ¬ w.Reaches place) :
    Leaves (history ++ [w]) place reading := by
  cases left with
  | content earlier later content split stands =>
      refine .content earlier (later ++ [w]) content (by rw [split]; simp) fun v among => ?_
      obtain among | among := List.mem_append.mp among
      · exact stands v among
      · rwa [List.mem_singleton.mp among]
  | nothing gone =>
      refine .nothing fun earlier later content split => ?_
      obtain ⟨rfl, rfl⟩ | ⟨rest, rfl, before⟩ := split_concat split
      · exact absurd rfl apart
      · obtain ⟨v, among, reached⟩ := gone earlier rest content before
        exact ⟨v, List.mem_append_left _ among, reached⟩

theorem concat_put (history : List (Writing α)) (place : Place) (content : place.Content α) :
    Leaves (history ++ [.put place content]) place (place.present content) :=
  .content history [] content rfl nofun

/-- Nothing is left at a place by a writing that clears it. -/
theorem concat_of_clears (history : List (Writing α)) {w : Writing α} {place : Place}
    (reached : w.Reaches place) (clears : ∀ content, w ≠ .put place content) :
    Leaves (history ++ [w]) place place.absent := by
  refine .nothing fun earlier later content split => ?_
  obtain ⟨-, last⟩ | ⟨rest, rfl, -⟩ := split_concat split
  · exact absurd last (clears content)
  · exact ⟨w, List.mem_append_right _ (List.mem_singleton_self w), reached⟩

end Leaves

/-! ### A whole history -/

/-- After a history of writings there is read at each place what the history leaves there. -/
theorem leaves_read_after (n : Nat) (history : List (Writing α)) (place : Place) :
    Leaves history place (((blank n).after history).read place) := by
  induction history using List.reverseRecOn with
  | nil =>
      rw [after, List.foldl_nil, read_blank]
      exact .nothing fun earlier later content split => by simp at split
  | append_singleton history w before =>
      rw [after, List.foldl_append, List.foldl_cons, List.foldl_nil, ← after]
      by_cases reached : w.Reaches place
      · obtain ⟨content, rfl, here⟩ | ⟨clears, here⟩ :=
          read_apply_of_reaches ((blank n).after history) reached
        · rw [here]
          exact .concat_put history place content
        · rw [here]
          exact .concat_of_clears history reached clears
      · rw [read_apply_of_not_reaches _ reached]
        exact before.concat reached

/-- What is read at a place stays through writings that do not reach it. -/
theorem read_after_of_not_reaches (l : Ledger α) {later : List (Writing α)} {place : Place}
    (stands : ∀ w ∈ later, ¬ w.Reaches place) : (l.after later).read place = l.read place := by
  induction later generalizing l with
  | nil => rfl
  | cons w later following =>
      calc (l.after (w :: later)).read place
          = (w.apply l).read place :=
            following _ fun v among => stands v (List.mem_cons_of_mem w among)
        _ = l.read place := read_apply_of_not_reaches l (stands w List.mem_cons_self)

/-- What a history leaves at a place is read there after it, so it is one thing. -/
theorem Leaves.read_after {history : List (Writing α)} {place : Place} {reading : place.Reading α}
    (left : Leaves history place reading) (n : Nat) :
    ((blank n).after history).read place = reading := by
  cases left with
  | content earlier later content split stands =>
      rw [split, after, List.foldl_append, List.foldl_cons, ← after, ← after,
        read_after_of_not_reaches _ stands]
      exact read_put _ place content
  | nothing gone =>
      have left := leaves_read_after n history place
      generalize ((blank n).after history).read place = found at left ⊢
      cases left with
      | content earlier later content split stands =>
          obtain ⟨w, among, reached⟩ := gone earlier later content split
          exact absurd reached (stands w among)
      | nothing => rfl

/-- The book is a map from places to what stands there.  After any history of writings, begun with a
blank book for any number of routes, what is read at a place is what was put there last, unless a
writing after it reaches the place, and nothing otherwise; writing a place gives back just that; and
no writing changes what is read at a place that it does not reach, whether or not the book grows.
A stop is read off the stops of its route, and a default only stands for what is absent. -/
theorem after_leaves (n : Nat) (history : List (Writing α)) :
    (∀ (place : Place) (reading : place.Reading α),
      ((blank n).after history).read place = reading ↔ Leaves history place reading) ∧
    (∀ (place : Place) (content : place.Content α) (before : place.Reading α),
      (((blank n).after history).put place content).1 = before ↔ Leaves history place before) ∧
    (∀ (w : Writing α) (place : Place), ¬ w.Reaches place →
      (w.apply ((blank n).after history)).read place = ((blank n).after history).read place) ∧
    (∀ route position, ∃ stops : List (StopEntry α), Leaves history (.stops route) stops ∧
      ((blank n).after history).stop? route position = stops[position]?) ∧
    (∀ route trip, ∃ load : Option (Load α), Leaves history (.load route trip) load ∧
      ((blank n).after history).load route trip = load.getD .empty) ∧
    (∀ route, ∃ count : Option Nat, Leaves history (.tripCount route) count ∧
      ((blank n).after history).tripCount route = count.getD 0) ∧
    (∀ route, ∃ needed : Option Bool, Leaves history (.needsBase route) needed ∧
      ((blank n).after history).needsBase route = needed.getD true) := by
  have left (place : Place) := leaves_read_after n history place
  have same (place : Place) (reading : place.Reading α) :
      ((blank n).after history).read place = reading ↔ Leaves history place reading :=
    ⟨fun is => is ▸ left place, fun leaves => leaves.read_after n⟩
  refine ⟨same, fun place content before => ?_, fun w place => read_apply_of_not_reaches _,
    fun route position => ⟨_, left (.stops route), rfl⟩,
    fun route trip => ⟨_, left (.load route trip), rfl⟩,
    fun route => ⟨_, left (.tripCount route), rfl⟩,
    fun route => ⟨_, left (.needsBase route), rfl⟩⟩
  rw [put_eq]
  exact same place before

/-- What is written at a trip far beyond the book is gone once the route is cleared; whether a job
needs a trip there is not, and a count of zero is a count. -/
example :
    let l := (blank 1 : Ledger Rat).after
      [.put (.load 3 2) .empty, .put (.needsBase 3) false, .clearTrips 3, .put (.tripCount 3) (0 : Nat)]
    l.load? 3 2 = none ∧ l.needsBase? 3 = some false ∧ l.tripCount? 3 = some 0 :=
  ⟨rfl, rfl, rfl⟩

end Ledger

end Haulage
