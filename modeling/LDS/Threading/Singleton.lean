import LDS.Library.Monitor

/-!
# The singletons

`Singleton<T>::GetInstance` looks for the instance without the lock, and once more with it before it makes one.
The constructor of `T` may throw; the lock is then released by its guard, and a later call tries again. An access
to a member of `Singleton<T>` is one step; an instance is known by its address.

## Main definitions

* `Singleton`: the members
* `Singleton.getInstance`: the program of a call
* `Singleton.Answers`: what an access answers
* `Singleton.Phase`, `Singleton.calling`: how far a call has come
* `Singleton.monitor`: what each phase relies on

## Main results

* `Singleton.watched`: the assertions hold in every run
* `Singleton.one_instance`: there is one instance at most, and every call that returns gives it out
-/

namespace LDS

/-- The members of `Singleton<T>`, and what has become of the constructors and destructors of `T`. -/
structure Singleton where
  instance_ : Option Nat
  owner : Option Nat
  locked : Bool
  built : List Nat
  deleted : List Nat
  thrown : List String

/-- The accesses of `GetInstance`: to the atomic pointer, to the mutex, and to the owning pointer; and the call of
the constructor. -/
inductive SingletonCall
  | load
  | lock
  | construct
  | reset (p : Nat)
  | get
  | store (p : Option Nat)
  | unlock

/-- What an access answers. -/
abbrev SingletonCall.Answer : SingletonCall → Type
  | load => Option Nat
  | construct => Except String Nat
  | get => Option Nat
  | _ => Unit

namespace Singleton

/-- A program of a thread. -/
abbrev SingletonProg := Prog SingletonCall SingletonCall.Answer

/-- `Singleton<T>::GetInstance`. The guard unlocks on every way out of its block. -/
def getInstance : SingletonProg (Except String (Option Nat)) := do
  let tmp ← Prog.perform SingletonCall.load
  if tmp = none then
    Prog.perform SingletonCall.lock
    let tmp ← Prog.perform SingletonCall.load
    if tmp = none then
      match ← Prog.perform SingletonCall.construct with
      | .error what =>
        Prog.perform SingletonCall.unlock
        return .error what
      | .ok p =>
        Prog.perform (SingletonCall.reset p)
        let tmp ← Prog.perform SingletonCall.get
        Prog.perform (SingletonCall.store tmp)
        Prog.perform SingletonCall.unlock
        return .ok tmp
    else
      Prog.perform SingletonCall.unlock
      return .ok tmp
  else return .ok tmp

/-- A thread that calls `GetInstance` as many times, and what each call returned or threw. -/
def getInstances : Nat → SingletonProg (List (Except String (Option Nat)))
  | 0 => return []
  | n + 1 => do
    let r ← getInstance
    return r :: (← getInstances n)

/-- What an access answers. The lock has to be free to be taken, a new object has an address of its own, and
`reset` deletes the object owned so far. -/
inductive Answers : Environment SingletonCall SingletonCall.Answer Singleton
  | load {s : Singleton} : Answers s .load s.instance_ s
  | lock {s : Singleton} (h : s.locked = false) : Answers s .lock () { s with locked := true }
  | constructed {s : Singleton} {p : Nat} (h : p ∉ s.built) :
      Answers s .construct (.ok p) { s with built := s.built ++ [p] }
  | throws {s : Singleton} {what : String} :
      Answers s .construct (.error what) { s with thrown := s.thrown ++ [what] }
  | reset {s : Singleton} {p : Nat} :
      Answers s (.reset p) () { s with owner := some p, deleted := s.deleted ++ s.owner.toList }
  | get {s : Singleton} : Answers s .get s.owner s
  | store {s : Singleton} {p : Option Nat} : Answers s (.store p) () { s with instance_ := p }
  | unlock {s : Singleton} : Answers s .unlock () { s with locked := false }

/-- Before the first call. -/
def start : Singleton where
  instance_ := none
  owner := none
  locked := false
  built := []
  deleted := []
  thrown := []

/-! ## The phases of a call -/

/-- How far a call has come. -/
inductive Place
  | outside
  | missed
  | inside
  | absent
  | built (p : Nat)
  | owned (p : Nat)
  | got (p : Nat)
  | found (p : Nat)
  | failed (what : String)

/-- A thread remembers what its calls have returned so far. -/
structure Phase where
  results : List (Except String (Option Nat))
  place : Place

/-- The contract of a thread that calls `GetInstance`. -/
def calling : Prog.Contract SingletonCall SingletonCall.Answer Phase where
  answers
    | ⟨_, .owned p⟩, .get, a => a = some p
    | _, _, _ => True
  calls
    | ⟨_, .outside⟩, o => o = .load
    | ⟨_, .missed⟩, o => o = .lock
    | ⟨_, .inside⟩, o => o = .load
    | ⟨_, .absent⟩, o => o = .construct
    | ⟨_, .built p⟩, o => o = .reset p
    | ⟨_, .owned _⟩, o => o = .get
    | ⟨_, .got p⟩, o => o = .store (some p)
    | ⟨_, .found _⟩, o => o = .unlock
    | ⟨_, .failed _⟩, o => o = .unlock
  next
    | ⟨rs, .outside⟩, .load, some p => ⟨rs ++ [.ok (some p)], .outside⟩
    | ⟨rs, .outside⟩, .load, none => ⟨rs, .missed⟩
    | ⟨rs, .missed⟩, .lock, _ => ⟨rs, .inside⟩
    | ⟨rs, .inside⟩, .load, some p => ⟨rs, .found p⟩
    | ⟨rs, .inside⟩, .load, none => ⟨rs, .absent⟩
    | ⟨rs, .absent⟩, .construct, .ok p => ⟨rs, .built p⟩
    | ⟨rs, .absent⟩, .construct, .error what => ⟨rs, .failed what⟩
    | ⟨rs, .built p⟩, .reset _, _ => ⟨rs, .owned p⟩
    | ⟨rs, .owned p⟩, .get, _ => ⟨rs, .got p⟩
    | ⟨rs, .got p⟩, .store _, _ => ⟨rs, .found p⟩
    | ⟨rs, .found p⟩, .unlock, _ => ⟨rs ++ [.ok (some p)], .outside⟩
    | ⟨rs, .failed what⟩, .unlock, _ => ⟨rs ++ [.error what], .outside⟩
    | x, _, _ => x
  mayAbort := False

/-- A call ends outside, and its result is remembered. -/
theorem obeys_getInstance (rs : List (Except String (Option Nat))) :
    Prog.Obeys calling (fun x r => x = ⟨rs ++ [r], .outside⟩) ⟨rs, .outside⟩ getInstance := by
  refine .call rfl ?_
  rintro (_ | p) -
  · -- the instance is not there yet
    refine .call rfl fun _ _ => ?_
    refine .call rfl ?_
    rintro (_ | p) -
    · refine .call rfl ?_
      rintro (what | p) -
      · exact .call rfl fun _ _ => .ret rfl
      · refine .call rfl fun _ _ => ?_
        refine .call rfl ?_
        rintro _ rfl
        exact .call rfl fun _ _ => .call rfl fun _ _ => .ret rfl
    · exact .call rfl fun _ _ => .ret rfl
  · exact .ret rfl

theorem obeys_getInstances (n : Nat) (rs : List (Except String (Option Nat))) :
    Prog.Obeys calling (fun x v => x = ⟨rs ++ v, .outside⟩) ⟨rs, .outside⟩ (getInstances n) := by
  induction n generalizing rs with
  | zero => exact .ret (by rw [List.append_nil])
  | succ n ih =>
    refine (obeys_getInstance rs).bind ?_
    rintro _ r rfl
    refine (ih (rs ++ [r])).bind ?_
    rintro _ v rfl
    exact .ret (by rw [List.append_assoc, List.singleton_append])

/-! ## What the phases rely on -/

/-- Nothing has been made, as far as the lock is free. -/
structure Empty (s : Singleton) : Prop where
  instance_ : s.instance_ = none
  owner : s.owner = none
  built : s.built = []

/-- The invariant: nothing is ever deleted, an instance that can be seen is the only one, and it is owned; while the
lock is free there is an instance to be seen, or nothing. -/
structure Inv (s : Singleton) : Prop where
  deleted : s.deleted = []
  seen : ∀ p, s.instance_ = some p → s.owner = some p ∧ s.built = [p]
  free : s.locked = false → s.instance_ = none → s.Empty
  length_built : s.built.length ≤ 1

/-- What a call gave out is the instance, or was thrown by the constructor. -/
def Known (s : Singleton) : Except String (Option Nat) → Prop
  | .ok tmp => tmp ≠ none ∧ s.instance_ = tmp
  | .error what => what ∈ s.thrown

/-- The thread holds the lock. -/
def Place.Inside : Place → Prop
  | .outside => False
  | .missed => False
  | _ => True

/-- What a place relies on. -/
def Place.Holds (s : Singleton) : Place → Prop
  | .outside => True
  | .missed => True
  | .inside => s.locked = true ∧ (s.instance_ = none → s.Empty)
  | .absent => s.locked = true ∧ s.Empty
  | .built p => s.locked = true ∧ s.instance_ = none ∧ s.owner = none ∧ s.built = [p]
  | .owned p => s.locked = true ∧ s.instance_ = none ∧ s.owner = some p ∧ s.built = [p]
  | .got p => s.locked = true ∧ s.instance_ = none ∧ s.owner = some p ∧ s.built = [p]
  | .found p => s.locked = true ∧ s.instance_ = some p
  | .failed what => s.locked = true ∧ s.Empty ∧ what ∈ s.thrown

/-- What a phase relies on. -/
structure Holds (s : Singleton) (x : Phase) : Prop where
  known : ∀ r ∈ x.results, s.Known r
  place : x.place.Holds s

variable {s s' : Singleton} {x y : Phase} {o : SingletonCall} {a : o.Answer}

/-- What was given out stays the instance. -/
theorem Known.congr {r : Except String (Option Nat)} (h : s.Known r)
    (hinst : s.instance_ ≠ none → s'.instance_ = s.instance_) (hthrown : ∀ what ∈ s.thrown, what ∈ s'.thrown) :
    s'.Known r := by
  cases r with
  | error what => exact hthrown what h
  | ok tmp =>
    obtain ⟨hne, heq⟩ := h
    refine ⟨hne, (hinst ?_).trans heq⟩
    rw [heq]
    exact hne

/-- Only an empty `s_instance` is written to, and what was thrown stays thrown. -/
theorem instance_of_answers (hplace : y.place.Holds s) (ho : calling.calls y o) (hR : Answers s o a s') :
    (s.instance_ ≠ none → s'.instance_ = s.instance_) ∧ ∀ what ∈ s.thrown, what ∈ s'.thrown := by
  obtain ⟨rs, place⟩ := y
  cases hR with
  | store =>
    -- the call is made where nothing has been stored yet
    cases place with
    | got p => exact ⟨fun hne => absurd hplace.2.1 hne, fun _ h => h⟩
    | _ => cases ho
  | throws => exact ⟨fun _ => rfl, fun _ h => List.mem_append_left _ h⟩
  | _ => exact ⟨fun _ => rfl, fun _ h => h⟩

/-- One access of the thread itself. -/
theorem own (hinv : s.Inv) (h : s.Holds x) (ho : calling.calls x o) (hR : Answers s o a s') :
    calling.answers x o a ∧ s'.Inv ∧ s'.Holds (calling.next x o a) := by
  obtain ⟨hknown, hplace⟩ := h
  obtain ⟨hinst, hthrown⟩ := instance_of_answers hplace ho hR
  have hknown' : ∀ r ∈ x.results, s'.Known r := fun r hr => (hknown r hr).congr hinst hthrown
  have hsnoc : ∀ r, s'.Known r → ∀ r' ∈ x.results ++ [r], s'.Known r' := by
    intro r hr r' hr'
    rcases List.mem_append.mp hr' with hr' | hr'
    · exact hknown' r' hr'
    · rwa [List.mem_singleton.mp hr']
  obtain ⟨rs, place⟩ := x
  obtain ⟨hdeleted, hseen, hfree, hlen⟩ := hinv
  cases place with
  | outside =>
    obtain rfl : o = .load := ho
    cases hR
    refine ⟨trivial, ⟨hdeleted, hseen, hfree, hlen⟩, ?_⟩
    cases hi : s.instance_ with
    | none => exact ⟨hknown, trivial⟩
    | some p => exact ⟨hsnoc _ ⟨Option.some_ne_none p, hi⟩, trivial⟩
  | missed =>
    obtain rfl : o = .lock := ho
    cases hR with
    | lock hunlocked =>
      refine ⟨trivial, ⟨hdeleted, hseen, fun h => (by cases h), hlen⟩, hknown', rfl, fun hnone => ?_⟩
      obtain ⟨hinst', howner, hbuilt⟩ := hfree hunlocked hnone
      exact ⟨hinst', howner, hbuilt⟩
  | inside =>
    obtain rfl : o = .load := ho
    cases hR
    obtain ⟨hlocked, hempty⟩ := hplace
    refine ⟨trivial, ⟨hdeleted, hseen, hfree, hlen⟩, ?_⟩
    cases hi : s.instance_ with
    | none => exact ⟨hknown, hlocked, hempty hi⟩
    | some p => exact ⟨hknown, hlocked, hi⟩
  | absent =>
    obtain rfl : o = .construct := ho
    obtain ⟨hlocked, hempty⟩ := hplace
    have hunseen : ∀ p, s.instance_ ≠ some p := fun p hp => (by cases hempty.instance_.symm.trans hp)
    cases hR with
    | @constructed _ p hp =>
      have hbuilt : s.built ++ [p] = [p] := by rw [hempty.built, List.nil_append]
      refine ⟨trivial, ⟨hdeleted, fun q hq => absurd hq (hunseen q), fun h => ?_, ?_⟩,
        hknown', hlocked, hempty.instance_, hempty.owner, hbuilt⟩
      · cases hlocked.symm.trans h
      · exact (congrArg List.length hbuilt).le
    | @throws _ what =>
      refine ⟨trivial, ⟨hdeleted, hseen, fun h => ?_, hlen⟩, hknown', hlocked, ⟨?_, ?_, ?_⟩, ?_⟩
      · cases hlocked.symm.trans h
      · exact hempty.instance_
      · exact hempty.owner
      · exact hempty.built
      · exact List.mem_append_right _ (List.mem_singleton_self _)
  | built p =>
    obtain rfl : o = .reset p := ho
    obtain ⟨hlocked, hinst', howner, hbuilt⟩ := hplace
    cases hR
    refine ⟨trivial, ⟨?_, fun q hq => ?_, fun h => ?_, hlen⟩, hknown', hlocked, hinst', rfl, hbuilt⟩
    · -- nothing was owned, so that nothing is deleted
      change s.deleted ++ s.owner.toList = []
      rw [hdeleted, howner]
      rfl
    · cases hinst'.symm.trans hq
    · cases hlocked.symm.trans h
  | owned p =>
    obtain rfl : o = .get := ho
    cases hR
    exact ⟨hplace.2.2.1, ⟨hdeleted, hseen, hfree, hlen⟩, hknown', hplace⟩
  | got p =>
    obtain rfl : o = .store (some p) := ho
    obtain ⟨hlocked, hinst', howner, hbuilt⟩ := hplace
    cases hR
    refine ⟨trivial, ⟨hdeleted, fun q hq => ?_, fun h => ?_, hlen⟩, hknown', hlocked, rfl⟩
    · obtain rfl := Option.some.inj hq
      exact ⟨howner, hbuilt⟩
    · cases hlocked.symm.trans h
  | found p =>
    obtain rfl : o = .unlock := ho
    obtain ⟨hlocked, hinst'⟩ := hplace
    cases hR
    refine ⟨trivial, ⟨hdeleted, hseen, fun _ hnone => ?_, hlen⟩, hsnoc _ ⟨Option.some_ne_none p, hinst'⟩, trivial⟩
    cases hinst'.symm.trans hnone
  | failed what =>
    obtain rfl : o = .unlock := ho
    obtain ⟨hlocked, hempty, hwhat⟩ := hplace
    cases hR
    exact ⟨trivial, ⟨hdeleted, hseen, fun _ _ => ⟨hempty.1, hempty.2, hempty.3⟩, hlen⟩, hsnoc _ hwhat, trivial⟩

/-- An access of another thread. -/
theorem other (h : s.Holds x) (h' : s.Holds y) (hexclusive : ¬ (x.place.Inside ∧ y.place.Inside))
    (ho : calling.calls y o) (hR : Answers s o a s') : s'.Holds x := by
  obtain ⟨hinst, hthrown⟩ := instance_of_answers h'.place ho hR
  refine ⟨fun r hr => (h.known r hr).congr hinst hthrown, ?_⟩
  obtain ⟨rs, place⟩ := x
  obtain ⟨rs', place'⟩ := y
  by_cases hin : place.Inside
  · -- the other thread is outside, and can do no more than look
    cases place' with
    | outside =>
      obtain rfl : o = .load := ho
      cases hR
      exact h.place
    | missed =>
      obtain rfl : o = .lock := ho
      cases hR with
      | lock hunlocked =>
        have hlocked : s.locked = true := by
          have hplace := h.place
          cases place <;> first | exact hin.elim | exact hplace.1
        cases hlocked.symm.trans hunlocked
    | _ => exact absurd ⟨hin, trivial⟩ hexclusive
  · cases place <;> first | exact trivial | exact absurd trivial hin

/-- The monitor of `GetInstance`. -/
def monitor : Monitor Answers calling where
  inv := Inv
  holds := Holds
  locked s := s.locked = true
  inside x := x.place.Inside
  own := own
  other _ h h' hexclusive ho hR := other h h' hexclusive ho hR
  locked_of_inside := by
    rintro s ⟨rs, place⟩ ⟨-, hplace⟩ hin
    cases place <;> first | exact hin.elim | exact hplace.1
  enters := by
    rintro s ⟨rs, place⟩ o a s' ho hR hin
    cases place with
    | outside =>
      obtain rfl : o = .load := ho
      cases a <;> exact hin.elim
    | missed =>
      obtain rfl : o = .lock := ho
      cases hR with
      | lock hunlocked => exact .inr (Bool.eq_false_iff.mp hunlocked)
    | _ => exact .inl trivial
  leaves := by
    rintro s ⟨rs, place⟩ o a s' ho hR hlocked
    cases place with
    | outside =>
      obtain rfl : o = .load := ho
      cases hR
      exact .inr ⟨hlocked, id⟩
    | inside =>
      obtain rfl : o = .load := ho
      cases a <;> exact .inl trivial
    | absent =>
      obtain rfl : o = .construct := ho
      cases a <;> exact .inl trivial
    | found p =>
      obtain rfl : o = .unlock := ho
      cases hR
      cases hlocked
    | failed what =>
      obtain rfl : o = .unlock := ho
      cases hR
      cases hlocked
    | missed =>
      obtain rfl : o = .lock := ho
      exact .inl trivial
    | built p =>
      obtain rfl : o = .reset p := ho
      exact .inl trivial
    | owned p =>
      obtain rfl : o = .get := ho
      exact .inl trivial
    | got p =>
      obtain rfl : o = .store (some p) := ho
      exact .inl trivial

/-! ## Runs -/

section Runs

variable {ι : Type} [DecidableEq ι] {count : ι → Nat}
  {tr : List (ι × Exchange SingletonCall SingletonCall.Answer)}
  {T : ι → SingletonProg (List (Except String (Option Nat)))}

/-- The assertions of the phases hold in every run. -/
theorem watched (hr : Pool.Run Answers (fun t => getInstances (count t)) start tr T s) :
    ∃ x, monitor.Watched (fun x v => x = ⟨v, .outside⟩) T s x := by
  refine Monitor.watched_of_run (x := fun _ => ⟨[], .outside⟩) ?_ hr
  refine ⟨⟨rfl, fun p hp => (by cases hp), fun _ _ => ⟨rfl, rfl, rfl⟩, Nat.zero_le 1⟩, fun t => ?_, fun t => ?_,
    fun _ _ _ hboth => hboth.1.elim, fun hlocked => (by cases hlocked)⟩
  · exact obeys_getInstances (count t) []
  · exact ⟨fun r hr => absurd hr List.not_mem_nil, trivial⟩

/-- The accesses that a thread is to make next can be made, unless it waits for the lock. -/
theorem can_step {t : ι} {x : Phase} (hp : Prog.Obeys calling (fun x v => x = ⟨v, .outside⟩) x (T t))
    (hdone : (T t).value? = none) (hfree : x.place.Inside ∨ s.locked = false) :
    ∃ e T' s', Pool.Step Answers T s (t, e) T' s' := by
  cases hT : T t with
  | ret v =>
    rw [hT] at hdone
    cases hdone
  | abort =>
    rw [hT] at hp
    exact hp.abort_inv.elim
  | call o k =>
    rw [hT] at hp
    have ho := hp.call_inv.1
    -- the access that the place is at has an answer
    have hanswer : ∃ a s', Answers s o a s' := by
      obtain ⟨rs, place⟩ := x
      cases place with
      | outside =>
        obtain rfl : o = .load := ho
        exact ⟨_, _, .load⟩
      | missed =>
        obtain rfl : o = .lock := ho
        exact ⟨_, _, .lock (hfree.resolve_left id)⟩
      | inside =>
        obtain rfl : o = .load := ho
        exact ⟨_, _, .load⟩
      | absent =>
        obtain rfl : o = .construct := ho
        exact ⟨.error "", _, .throws⟩
      | built p =>
        obtain rfl : o = .reset p := ho
        exact ⟨_, _, .reset⟩
      | owned p =>
        obtain rfl : o = .get := ho
        exact ⟨_, _, .get⟩
      | got p =>
        obtain rfl : o = .store (some p) := ho
        exact ⟨_, _, .store⟩
      | found p =>
        obtain rfl : o = .unlock := ho
        exact ⟨_, _, .unlock⟩
      | failed what =>
        obtain rfl : o = .unlock := ho
        exact ⟨_, _, .unlock⟩
    obtain ⟨a, s', hR⟩ := hanswer
    exact ⟨_, _, s', .call hT hR⟩

/-- **One instance.** However the calls of any number of threads interleave, one object at most is made, and the
calls delete none. A call that returns gives out the one that has been made; what a call throws was thrown when an
object was to be made. As long as a call is under way, some thread can go on. -/
theorem one_instance (hr : Pool.Run Answers (fun t => getInstances (count t)) start tr T s) :
    s.built.length ≤ 1 ∧ s.deleted = [] ∧
      (∀ t results, T t = .ret results → ∀ r ∈ results,
        (∃ p, r = .ok (some p) ∧ s.built = [p] ∧ s.owner = some p) ∨ ∃ what ∈ s.thrown, r = .error what) ∧
      ((∃ t, (T t).value? = none) → ∃ e T' s', Pool.Step Answers T s e T' s') := by
  obtain ⟨x, hinv, hobeys, hholds, -, htaken⟩ := watched hr
  refine ⟨hinv.length_built, hinv.deleted, fun t results hT r hmem => ?_, ?_⟩
  · have hp := hobeys t
    rw [hT] at hp
    have hknown := (hholds t).known r (by rw [hp.ret_inv]; exact hmem)
    cases r with
    | error what => exact .inr ⟨what, hknown, rfl⟩
    | ok tmp =>
      obtain ⟨hne, hinst⟩ := hknown
      obtain ⟨p, rfl⟩ := Option.ne_none_iff_exists'.mp hne
      obtain ⟨howner, hbuilt⟩ := hinv.seen p hinst
      exact .inl ⟨p, rfl, hbuilt, howner⟩
  · rintro ⟨t, ht⟩
    by_cases hlocked : s.locked = true
    · -- the thread that holds the lock is not done
      obtain ⟨i, hi⟩ := htaken hlocked
      have hdone : (T i).value? = none := by
        cases hT : T i with
        | ret v =>
          have hp := hobeys i
          rw [hT] at hp
          rw [hp.ret_inv] at hi
          exact hi.elim
        | _ => rfl
      obtain ⟨e, T', s', hs⟩ := can_step (hobeys i) hdone (.inl hi)
      exact ⟨_, T', s', hs⟩
    · obtain ⟨e, T', s', hs⟩ := can_step (hobeys t) ht (.inr (Bool.eq_false_iff.mpr hlocked))
      exact ⟨_, T', s', hs⟩

end Runs

/-- What an access does, with a constructor that throws the first time. -/
def handler : Prog.Handler SingletonCall SingletonCall.Answer Singleton
  | .load, s => some (s.instance_, s)
  | .lock, s => if s.locked then none else some ((), { s with locked := true })
  | .construct, s =>
    if s.thrown = [] then some (.error "open", { s with thrown := ["open"] })
    else if 7 ∈ s.built then none else some (.ok 7, { s with built := s.built ++ [7] })
  | .reset p, s => some ((), { s with owner := some p, deleted := s.deleted ++ s.owner.toList })
  | .get, s => some (s.owner, s)
  | .store p, s => some ((), { s with instance_ := p })
  | .unlock, s => some ((), { s with locked := false })

theorem answers_handler (s : Singleton) (o : SingletonCall) (a : o.Answer) (s' : Singleton)
    (h : handler o s = some (a, s')) : Answers s o a s' := by
  cases o with
  | lock =>
    simp only [handler, Option.ite_none_left_eq_some] at h
    obtain ⟨hfree, h⟩ := h
    obtain ⟨rfl, rfl⟩ := Prod.mk.inj (Option.some.inj h)
    exact .lock (Bool.eq_false_iff.mpr hfree)
  | construct =>
    simp only [handler] at h
    split at h
    · rename_i hthrown
      obtain ⟨rfl, rfl⟩ := Prod.mk.inj (Option.some.inj h)
      have hs : Answers s .construct (.error "open") _ := .throws
      rwa [hthrown] at hs
    · rw [Option.ite_none_left_eq_some] at h
      obtain ⟨hfresh, h⟩ := h
      obtain ⟨rfl, rfl⟩ := Prod.mk.inj (Option.some.inj h)
      exact .constructed hfresh
  | load =>
    obtain ⟨rfl, rfl⟩ := Prod.mk.inj (Option.some.inj h)
    exact .load
  | reset p =>
    obtain ⟨rfl, rfl⟩ := Prod.mk.inj (Option.some.inj h)
    exact .reset
  | get =>
    obtain ⟨rfl, rfl⟩ := Prod.mk.inj (Option.some.inj h)
    exact .get
  | store p =>
    obtain ⟨rfl, rfl⟩ := Prod.mk.inj (Option.some.inj h)
    exact .store
  | unlock =>
    obtain ⟨rfl, rfl⟩ := Prod.mk.inj (Option.some.inj h)
    exact .unlock

/-- Two threads miss the instance at the same time. The constructor throws in the first, and the second makes it. -/
theorem one_instance_after_throw : ∃ tr, ∃ T : Fin 2 → _, ∃ s,
    Pool.Run Answers (fun _ => getInstances 1) start tr T s ∧ s.thrown = ["open"] ∧ s.built.length ≤ 1 ∧
      s.deleted = [] ∧ s.instance_ = some 7 := by
  have hexec : (Pool.exec handler [0, 1, 0, 0, 0, 0, 1, 1, 1, 1, 1, 1, 1]
      (fun _ : Fin 2 => getInstances 1) start).map (fun r =>
        decide (r.2.2.thrown = ["open"] ∧ r.2.2.instance_ = some 7)) = some true := by
    decide +kernel
  obtain ⟨⟨tr, T, s⟩, he, hs⟩ := Option.map_eq_some_iff.mp hexec
  obtain ⟨hthrown, hinst⟩ := of_decide_eq_true hs
  have hrun := Pool.run_of_exec answers_handler he
  obtain ⟨hlen, hdeleted, -⟩ := one_instance hrun
  exact ⟨tr, T, s, hrun, hthrown, hlen, hdeleted, hinst⟩

end Singleton

end LDS
