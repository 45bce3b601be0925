import FirebaseSwift.Library.StepRuns

/-! Code that works on shared state by atomic accesses. A program is the tree of its accesses: what it
does next depends on the answers. It ends with a result, an error, or a trap. Between two accesses other
programs may change the state, as far as they keep to the rely relation; the program in return keeps its
own accesses to the guarantee. With equality as the relation nothing happens in between, and the rules are
those of sequential code. -/

namespace AccessPrograms

inductive Outcome (ε β : Type) where
  | returned (result : β)
  | threw (error : ε)
  | trapped (message : String)

inductive Program {α : Type} (Answer : α → Type) (ε β : Type) where
  | ended (outcome : Outcome ε β)
  | access (a : α) (next : Answer a → Program Answer ε β)

namespace Program

variable {α : Type} {Answer : α → Type} {ε β γ : Type}

def bind (program : Program Answer ε β) (f : β → Program Answer ε γ) : Program Answer ε γ :=
  match program with
  | .ended (.returned result) => f result
  | .ended (.threw error) => .ended (.threw error)
  | .ended (.trapped message) => .ended (.trapped message)
  | .access a next => .access a fun answer => (next answer).bind f

/-- What follows an error; a trap cannot be caught. -/
def handle (program : Program Answer ε β) (handler : ε → Program Answer ε β) : Program Answer ε β :=
  match program with
  | .ended (.threw error) => handler error
  | .ended outcome => .ended outcome
  | .access a next => .access a fun answer => (next answer).handle handler

instance : Monad (Program Answer ε) where
  pure result := .ended (.returned result)
  bind := bind

instance : MonadExcept ε (Program Answer ε) where
  throw error := .ended (.threw error)
  tryCatch := handle

def request (a : α) : Program Answer ε (Answer a) := .access a fun answer => .ended (.returned answer)

def trap (message : String) : Program Answer ε β := .ended (.trapped message)

theorem bind_eq (program : Program Answer ε β) (f : β → Program Answer ε γ) : program >>= f = program.bind f := rfl

theorem tryCatch_eq (program : Program Answer ε β) (handler : ε → Program Answer ε β) :
    tryCatch program handler = program.handle handler := rfl

section Steps

variable {ι ω : Type} (perform : (a : α) → ι → ω → Option (Answer a × ω))

/-- The next access of a program. A program that has ended makes none. -/
def step (now : Program Answer ε β × ω) (input : ι) : Option (Program Answer ε β × ω) :=
  match now.1 with
  | .ended _ => none
  | .access a next => (perform a input now.2).map fun performed => (next performed.1, performed.2)

/-- The outcome and the state when a program has run alone to its end. -/
def outcome (program : Program Answer ε β) (inputs : List ι) (state : ω) : Option (Outcome ε β × ω) :=
  match StepRuns.run (step perform) (program, state) inputs with
  | some (.ended outcome, state) => some (outcome, state)
  | _ => none

end Steps

end Program

open Program

section Ensures

variable {α : Type} {Answer : α → Type} {ε β γ ι ω : Type}
  (perform : (a : α) → ι → ω → Option (Answer a × ω)) (rely guarantee : ω → ω → Prop)

/-- However the others use the rely relation, every access of the program keeps to the guarantee, and the
postcondition holds of the outcome from the end of the program on. -/
def Ensures (post : Outcome ε β → ω → Prop) : Program Answer ε β → ω → Prop
  | .ended outcome, state => ∀ state', rely state state' → post outcome state'
  | .access a next, state => ∀ state', rely state state' → ∀ input, ∀ performed ∈ perform a input state',
      guarantee state' performed.2 ∧ Ensures post (next performed.1) performed.2

/-- The postcondition of the first part of a sequence. -/
def followedBy (f : β → Program Answer ε γ) (post : Outcome ε γ → ω → Prop) : Outcome ε β → ω → Prop
  | .returned result => Ensures perform rely guarantee post (f result)
  | .threw error => post (.threw error)
  | .trapped message => post (.trapped message)

/-- A postcondition that says nothing about an error or a trap. -/
def onReturn (post : β → ω → Prop) : Outcome ε β → ω → Prop
  | .returned result, state => post result state
  | _, _ => True

/-- A postcondition of the result or the error. -/
def onEnd (post : Except ε β → ω → Prop) : Outcome ε β → ω → Prop
  | .returned result => post (.ok result)
  | .threw error => post (.error error)
  | .trapped _ => fun _ => True

/-- The postcondition of what is run under a handler. -/
def handledBy (handler : ε → Program Answer ε β) (post : Outcome ε β → ω → Prop) : Outcome ε β → ω → Prop
  | .threw error => Ensures perform rely guarantee post (handler error)
  | .returned result => post (.returned result)
  | .trapped message => post (.trapped message)

variable {perform rely guarantee}
variable {post post' : Outcome ε β → ω → Prop} {program : Program Answer ε β} {state state' : ω}

theorem Ensures.of_rely (htrans : ∀ {a b c}, rely a b → rely b c → rely a c)
    (h : Ensures perform rely guarantee post program state) (hstate : rely state state') :
    Ensures perform rely guarantee post program state' := by
  cases program with
  | ended outcome => exact fun later hlater => h later (htrans hstate hlater)
  | access a next => exact fun later hlater => h later (htrans hstate hlater)

theorem Ensures.mono (hpost : ∀ outcome state, post outcome state → post' outcome state)
    (h : Ensures perform rely guarantee post program state) :
    Ensures perform rely guarantee post' program state := by
  induction program generalizing state with
  | ended outcome => exact fun later hlater => hpost outcome later (h later hlater)
  | access a next ih =>
      intro later hlater input performed hperformed
      obtain ⟨hguarantee, hnext⟩ := h later hlater input performed hperformed
      exact ⟨hguarantee, ih performed.1 hnext⟩

theorem Ensures.imp {guarantee' : ω → ω → Prop}
    (himp : ∀ a input state, ∀ performed ∈ perform a input state, guarantee state performed.2 →
      guarantee' state performed.2) (h : Ensures perform rely guarantee post program state) :
    Ensures perform rely guarantee' post program state := by
  induction program generalizing state with
  | ended outcome => exact h
  | access a next ih =>
      intro later hlater input performed hperformed
      obtain ⟨hguarantee, hnext⟩ := h later hlater input performed hperformed
      exact ⟨himp a input later performed hperformed hguarantee, ih performed.1 hnext⟩

/-- What both relations allow relates the start of the program to its end. -/
theorem Ensures.reaches {reach : ω → ω → Prop} (hrefl : ∀ state, reach state state)
    (htrans : ∀ {a b c}, reach a b → reach b c → reach a c) (hrely : ∀ {a b}, rely a b → reach a b)
    (hguarantee : ∀ {a b}, guarantee a b → reach a b) (h : Ensures perform rely guarantee post program state) :
    Ensures perform rely guarantee (fun outcome later => post outcome later ∧ reach state later) program
      state := by
  have hstart : ∀ start, reach start state →
      Ensures perform rely guarantee (fun outcome later => post outcome later ∧ reach start later) program
        state := by
    induction program generalizing state with
    | ended outcome =>
        exact fun start hstart later hlater => ⟨h later hlater, htrans hstart (hrely hlater)⟩
    | access a next ih =>
        intro start hstart later hlater input performed hperformed
        obtain ⟨hstep, hnext⟩ := h later hlater input performed hperformed
        exact ⟨hstep, ih performed.1 hnext start
          (htrans (htrans hstart (hrely hlater)) (hguarantee hstep))⟩
  exact hstart state (hrefl state)

variable {f : β → Program Answer ε γ}

/-- Before the second part of a sequence the others may have moved on. -/
theorem Ensures.bind (hrefl : ∀ state, rely state state) {post : Outcome ε γ → ω → Prop}
    (h : Ensures perform rely guarantee (followedBy perform rely guarantee f post) program state) :
    Ensures perform rely guarantee post (program >>= f) state := by
  rw [bind_eq]
  induction program generalizing state with
  | ended outcome =>
      cases outcome with
      | returned result => exact h state (hrefl state)
      | threw error => exact h
      | trapped message => exact h
  | access a next ih =>
      intro later hlater input performed hperformed
      obtain ⟨hguarantee, hnext⟩ := h later hlater input performed hperformed
      exact ⟨hguarantee, ih performed.1 hnext⟩

/-- A sequence of two, where only what is returned matters. -/
theorem Ensures.andThen (hrefl : ∀ state, rely state state) {middle : β → ω → Prop} {post : γ → ω → Prop}
    (h : Ensures perform rely guarantee (onReturn middle) program state)
    (hnext : ∀ result later, middle result later →
      Ensures perform rely guarantee (onReturn post) (f result) later) :
    Ensures perform rely guarantee (onReturn post) (program >>= f) state := by
  refine Ensures.bind hrefl (h.mono ?_)
  intro outcome later houtcome
  cases outcome with
  | returned result => exact hnext result later houtcome
  | threw error => trivial
  | trapped message => trivial

theorem Ensures.handle (hrefl : ∀ state, rely state state) {handler : ε → Program Answer ε β}
    (h : Ensures perform rely guarantee (handledBy perform rely guarantee handler post) program state) :
    Ensures perform rely guarantee post (tryCatch program handler) state := by
  rw [tryCatch_eq]
  induction program generalizing state with
  | ended outcome =>
      cases outcome with
      | returned result => exact h
      | threw error => exact h state (hrefl state)
      | trapped message => exact h
  | access a next ih =>
      intro later hlater input performed hperformed
      obtain ⟨hguarantee, hnext⟩ := h later hlater input performed hperformed
      exact ⟨hguarantee, ih performed.1 hnext⟩

theorem Ensures.request {a : α} {post : Outcome ε (Answer a) → ω → Prop}
    (h : ∀ state', rely state state' → ∀ input, ∀ performed ∈ perform a input state',
      guarantee state' performed.2 ∧
        ∀ later, rely performed.2 later → post (.returned performed.1) later) :
    Ensures perform rely guarantee post (request a) state := h

/-- One step of a program that is run with the others. -/
theorem Ensures.step (h : Ensures perform rely guarantee post program state)
    (hstate : rely state state') {input : ι} {now : Program Answer ε β × ω}
    (hstep : now ∈ Program.step perform (program, state') input) :
    guarantee state' now.2 ∧ Ensures perform rely guarantee post now.1 now.2 := by
  cases program with
  | ended outcome => cases hstep
  | access a next =>
      obtain ⟨performed, hperformed, rfl⟩ := Option.map_eq_some_iff.mp hstep
      exact h state' hstate input performed hperformed

/-- A program that ends alone has its postcondition. -/
theorem Ensures.outcome (hrefl : ∀ state, rely state state)
    (h : Ensures perform rely guarantee post program state) {inputs : List ι}
    {ending : Outcome ε β × ω} (hrun : ending ∈ program.outcome perform inputs state) : post ending.1 ending.2 := by
  unfold Program.outcome at hrun
  split at hrun
  case h_2 => cases hrun
  case h_1 outcome final hfinal =>
    cases hrun
    have hstep : ∀ (now : Program Answer ε β × ω) (input : ι),
        Ensures perform rely guarantee post now.1 now.2 → True →
        ∀ next ∈ Program.step perform now input, Ensures perform rely guarantee post next.1 next.2 :=
      fun now _ hnow _ next hnext => (hnow.step (hrefl now.2) hnext).2
    have hend : Ensures perform rely guarantee post (.ended outcome) final :=
      @StepRuns.invariant_run _ _ _ (fun now => Ensures perform rely guarantee post now.1 now.2)
        (fun _ _ => True) hstep _ _ _ h (StepRuns.allSteps_true (fun _ _ => trivial) _ _) hfinal
    exact hend final (hrefl final)

end Ensures

section Sequential

variable {α : Type} {Answer : α → Type} {ε β γ ι ω : Type}

/-- No path of the program returns. -/
def NeverReturns : Program Answer ε β → Prop
  | .ended (.returned _) => False
  | .ended _ => True
  | .access _ next => ∀ answer, NeverReturns (next answer)

theorem neverReturns_bind {program : Program Answer ε β} {f : β → Program Answer ε γ}
    (h : ∀ result, NeverReturns (f result)) : NeverReturns (program >>= f) := by
  rw [bind_eq]
  induction program with
  | ended outcome =>
      cases outcome with
      | returned result => exact h result
      | threw error => trivial
      | trapped message => trivial
  | access a next ih => exact fun answer => ih answer

variable (perform : (a : α) → ι → ω → Option (Answer a × ω))

/-- What holds of a result of the program, when it runs alone. -/
abbrev Returns (post : β → ω → Prop) (program : Program Answer ε β) (state : ω) : Prop :=
  Ensures perform Eq (fun _ _ => True) (onReturn post) program state

variable {perform} {post : β → ω → Prop} {program : Program Answer ε β} {state : ω}

namespace Returns

theorem mono {post' : β → ω → Prop} (h : Returns perform post program state)
    (hpost : ∀ result later, post result later → post' result later) : Returns perform post' program state := by
  refine Ensures.mono ?_ h
  rintro (result | error | message) later houtcome
  · exact hpost result later houtcome
  · trivial
  · trivial

theorem of_neverReturns (h : NeverReturns program) (post : β → ω → Prop) : Returns perform post program state := by
  induction program generalizing state with
  | ended outcome =>
      rintro later rfl
      cases outcome with
      | returned result => cases h
      | threw error => trivial
      | trapped message => trivial
  | access a next ih =>
      rintro later rfl input performed -
      exact ⟨trivial, ih performed.1 (h performed.1)⟩

theorem pure {result : β} (h : post result state) : Returns perform post (Pure.pure result : Program Answer ε β) state := by
  rintro later rfl
  exact h

theorem andThen {f : β → Program Answer ε γ} {post : γ → ω → Prop} {middle : β → ω → Prop}
    (h : Returns perform middle program state)
    (hnext : ∀ result later, middle result later → Returns perform post (f result) later) :
    Returns perform post (program >>= f) state :=
  Ensures.andThen (fun _ => rfl) h hnext

theorem handle {handler : ε → Program Answer ε β} (h : Returns perform post program state)
    (hhandler : ∀ error, NeverReturns (handler error)) : Returns perform post (tryCatch program handler) state := by
  refine Ensures.handle (fun _ => rfl) (Ensures.mono ?_ h)
  rintro (result | error | message) later houtcome
  · exact houtcome
  · exact of_neverReturns (hhandler error) post
  · trivial

theorem request {a : α} {post : Answer a → ω → Prop}
    (h : ∀ input answer after, perform a input state = some (answer, after) → post answer after) :
    Returns perform post (Program.request a : Program Answer ε (Answer a)) state := by
  apply Ensures.request
  rintro later rfl input performed hperformed
  refine ⟨trivial, ?_⟩
  rintro last rfl
  exact h input performed.1 performed.2 hperformed

end Returns

end Sequential

end AccessPrograms
