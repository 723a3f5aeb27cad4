import MountShell.Program.Stock
import MountShell.Proofs.FileSystem.Views
import MountShell.Proofs.Shell.Delivery

/-!
# Reading keys up to `Enter`

The program `less` shows a file and then asks for keys, one at a time.  A key that is at hand is
taken at once, so that a poll may read any number of keys; the keys of lines that are typed ahead
are among them (`Host.keysAtHand`).

Main statement: `less_run`, what is shown and where it arrives, which keys are asked for and taken
and how the program ends, whenever keys, the end of the input or a signal arrive.
-/

namespace MountShell

/-! ### Keys at hand -/

namespace Host

/-- The keys that can be read without waiting: those that have been pressed, and then those of the
lines that are typed ahead. -/
def keysAtHand (h : Host) : List String :=
  h.keys ++
    match h.input with
    | .fixed _ => []
    | .lines rest => rest.flatMap lineKeys

/-- A line has one key at least, which ends it. -/
theorem lineKeys_ne_nil (line : String) : lineKeys line ≠ [] := by
  simp [lineKeys]

/-- The keys at hand are those that are counted ahead. -/
theorem length_keysAtHand (h : Host) : h.keysAtHand.length = h.keysAhead := by
  unfold keysAtHand keysAhead
  rw [List.length_append]
  cases h.input with
  | fixed text => rfl
  | lines rest =>
    refine congrArg (h.keys.length + ·) ?_
    induction rest with
    | nil => rfl
    | cons line rest ih =>
      simp only at ih ⊢
      rw [List.flatMap_cons, List.length_append, List.foldr_cons, ← ih]
      simp [lineKeys, String.length_toList]

/-- Breaking a line into keys changes no key at hand. -/
theorem keysAtHand_refill (h : Host) :
    h.refill.keysAtHand = h.keysAtHand ∧ (h.refill.keys = [] → h.refill.keysAtHand = []) ∧
      h.refill.ended = h.ended := by
  unfold refill
  rcases hkeys : h.keys with _ | ⟨key, keys⟩
  · rcases hinput : h.input with text | _ | ⟨line, rest⟩
    · simp [keysAtHand, hkeys, hinput]
    · simp [keysAtHand, hkeys, hinput]
    · simp [keysAtHand, hkeys, hinput, lineKeys_ne_nil]
  · simp [keysAtHand, hkeys]

variable {h : Host} {key : String} {rest : List String}

/-- The first of the keys at hand is taken. -/
theorem nextKey_of_cons (hkeys : h.keysAtHand = key :: rest) (waiter : Waker) :
    ∃ host, h.nextKey waiter = (some (.key key), host) ∧ host.keysAtHand = rest ∧
      host.ended = h.ended := by
  obtain ⟨hsame, hnil, hended⟩ := h.keysAtHand_refill
  unfold nextKey
  rcases hrefilled : h.refill.keys with _ | ⟨first, keys⟩
  · rw [hnil hrefilled, hkeys] at hsame
    exact absurd hsame (List.cons_ne_nil _ _).symm
  · have hcons : first :: { h.refill with keys }.keysAtHand = key :: rest := by
      rw [← hkeys, ← hsame]
      simp [keysAtHand, hrefilled]
    obtain ⟨rfl, hrest⟩ := List.cons.inj hcons
    simp only [hrefilled]
    exact ⟨_, rfl, hrest, hended⟩

/-- Without a key at hand there is no answer but that there will be no more. -/
theorem nextKey_of_nil (hkeys : h.keysAtHand = []) (waiter : Waker) :
    ∃ host, h.nextKey waiter = (if h.ended then some .ended else none, host) ∧
      host.keysAtHand = [] := by
  obtain ⟨hsame, -, hended⟩ := h.keysAtHand_refill
  have hnone : h.refill.keys = [] := (List.append_eq_nil_iff.1 (hsame.trans hkeys)).1
  unfold nextKey
  simp only [hnone, hended]
  by_cases hend : h.ended = true
  · rw [if_pos hend, if_pos hend]
    exact ⟨_, rfl, hsame.trans hkeys⟩
  · rw [if_neg hend, if_neg hend]
    have hleft := hsame.trans hkeys
    rw [keysAtHand, hnone] at hleft
    exact ⟨_, rfl, hleft⟩

end Host

/-! ### Dialogues -/

/-- Something that is said about keys. -/
inductive Exchange where
  /-- A command asks for a key. -/
  | asks
  | answers (answer : KeyAnswer)
  deriving DecidableEq

namespace Shell

variable {sh : Shell} {key : String} {rest : List String}

/-- The answer that a look for a key gets on behalf of the task in the given slot. -/
def keyAnswer? (sh : Shell) (id : Nat) : Option KeyAnswer :=
  (sh.host.nextKey (.task id)).1.or (if sh.flag.raised then some .interrupted else none)

/-- The first key at hand is the answer. -/
theorem keyAnswer?_of_cons (h : sh.host.keysAtHand = key :: rest) (id : Nat) :
    sh.keyAnswer? id = some (.key key) ∧
      (sh.host.nextKey (.task id)).2.keysAtHand = rest ∧
        (sh.host.nextKey (.task id)).2.ended = sh.host.ended := by
  obtain ⟨host, hnext, hrest, hended⟩ := Host.nextKey_of_cons h (.task id)
  rw [keyAnswer?, hnext]
  exact ⟨rfl, hrest, hended⟩

/-- With a key at hand there is an answer. -/
theorem keyAnswer?_ne_none (h : sh.host.keysAtHand ≠ []) (id : Nat) :
    sh.keyAnswer? id ≠ none := by
  obtain ⟨key, rest, hkeys⟩ := List.exists_cons_of_ne_nil h
  rw [(keyAnswer?_of_cons hkeys id).1]
  exact Option.some_ne_none _

/-- Without one the answer is the end of the input, or the signal, in this order. -/
theorem keyAnswer?_of_nil (h : sh.host.keysAtHand = []) (id : Nat) :
    sh.keyAnswer? id = (if sh.host.ended then some .ended
        else if sh.flag.raised then some .interrupted else none) ∧
      (sh.host.nextKey (.task id)).2.keysAtHand = [] := by
  obtain ⟨host, hnext, hleft⟩ := Host.nextKey_of_nil h (.task id)
  rw [keyAnswer?, hnext]
  refine ⟨?_, hleft⟩
  by_cases hended : sh.host.ended = true
  · rw [if_pos hended, if_pos hended, Option.some_or]
  · rw [if_neg hended, if_neg hended, Option.none_or]

end Shell

/-- What is said about keys in a moment. -/
def Driver.Moment.exchanges {κ τ : Type} (programs : Programs κ τ) :
    Driver.Moment κ τ → List Exchange
  | boundary _ _ => []
  | step computation c =>
    match ((programs.step computation).run c).1 with
    | .key _ => [.asks]
    | _ => []
  | look id (.key _) sh _ => ((sh.keyAnswer? id).map Exchange.answers).toList
  | look _ _ _ _ => []

/-- A look for a key goes on with the answer, if there is one. -/
theorem Job.lookAt_key {κ τ : Type} [Zero τ] [Add τ] [LT τ] [DecidableLT τ] (id : Nat)
    (next : KeyAnswer → κ) (sh : Shell) (timers : TimerQueue τ Waker) :
    ∃ flag, flag.raised = sh.flag.raised ∧ Job.lookAt id (.key next) sh timers =
      (match sh.keyAnswer? id with
        | some answer => .inl (next answer)
        | none => .inr (.key next),
        { sh with host := (sh.host.nextKey (.task id)).2, flag }, timers) := by
  unfold Job.lookAt Shell.keyAnswer?
  simp only
  rcases sh.host.nextKey (.task id) with ⟨_ | answer, host⟩
  · unfold SignalFlag.look
    by_cases hflag : sh.flag.raised = true
    · simp only [hflag, if_true]
      exact ⟨sh.flag, hflag, rfl⟩
    · simp only [Bool.not_eq_true] at hflag
      simp only [hflag, Bool.false_eq_true, if_false]
      exact ⟨_, rfl, rfl⟩
  · exact ⟨sh.flag, rfl, rfl⟩

namespace Stock

variable {scripts : List (String × ProgramScript)} {c : Context} {id n : Nat}
  {timers : TimerQueue Millis Waker}

/-! ### Steps -/

/-- The computation that goes on with an answer. -/
def answered (answer : KeyAnswer) : Computation :=
  .pager (some answer)

/-- What ends the program: `Enter`, or the end of the input. -/
def Ends (answer : KeyAnswer) : Prop :=
  answer = .key Host.enter ∨ answer = .ended

/-- An answer that ends the program. -/
theorem step_answered_of_ends (scripts : List (String × ProgramScript)) {answer : KeyAnswer}
    (h : Ends answer) (c : Context) :
    ((programs scripts).step (answered answer)).run c = (.done (some 0), c) ∧
      ((programs scripts).step (answered answer)).requests c = [] := by
  rcases h with rfl | rfl <;> exact ⟨rfl, rfl⟩

/-- Before the first answer, and after any other, a key is asked for. -/
theorem step_pager_of_asks (scripts : List (String × ProgramScript)) {answer : Option KeyAnswer}
    (h : ∀ a, answer = some a → ¬Ends a) (c : Context) :
    ((programs scripts).step (.pager answer)).run c = (.key answered, c) ∧
      ((programs scripts).step (.pager answer)).requests c = [] := by
  have hstep : (programs scripts).step (.pager answer) = Routine.done (.key answered) := by
    rcases answer with _ | name | _ | _
    · rfl
    · have hne : name ≠ Host.enter := fun heq => h _ rfl (.inl (congrArg KeyAnswer.key heq))
      exact if_neg hne
    · exact absurd (.inr rfl) (h _ rfl)
    · rfl
  rw [hstep]
  exact ⟨rfl, rfl⟩

/-! ### Polls -/

/-- A key that does not end the program: it is the answer, and another one is asked for. -/
def turn (key : String) : List Exchange :=
  [.answers (.key key), .asks]

/-- What reading keys has come to: what has been said about keys, the keys at hand that have not
been taken, and the code if the program has ended.  Nothing else has been done, but that a program
which ends with code 1 has been cancelled. -/
structure Reads (scripts : List (String × ProgramScript)) (dialogue : List Exchange)
    (left : List String) (code : Option Int)
    (driven : List (Driver.Moment Computation Millis) × JobPoll Computation Millis) : Prop where
  exchanges : driven.1.flatMap (Driver.Moment.exchanges (programs scripts)) = dialogue
  deeds : driven.1.flatMap (Driver.Moment.deeds (programs scripts)) =
    if code = some cancelledCode then [.cancelled] else []
  left : driven.2.shell.host.keysAtHand = left
  ends : ∀ result, code = some result → driven.2.progress = .ends (.ok result)
  waits : code = none → ∃ io, driven.2.progress = .waits (.suspended io (.key answered))

variable {dialogue : List Exchange} {left : List String} {code : Option Int}
  {driven : List (Driver.Moment Computation Millis) × JobPoll Computation Millis}

/-- More has been done before. -/
theorem Reads.append {moments : List (Driver.Moment Computation Millis)} {said : List Exchange}
    (hsaid : moments.flatMap (Driver.Moment.exchanges (programs scripts)) = said)
    (hdeeds : moments.flatMap (Driver.Moment.deeds (programs scripts)) = [])
    (h : Reads scripts dialogue left code driven) :
    Reads scripts (said ++ dialogue) left code (moments ++ driven.1, driven.2) where
  exchanges := by rw [List.flatMap_append, hsaid, h.exchanges]
  deeds := by rw [List.flatMap_append, hdeeds, h.deeds, List.nil_append]
  left := h.left
  ends := h.ends
  waits := h.waits

/-- A boundary at which the flag is up. -/
theorem reads_drive_of_raised (hflag : c.shell.flag.raised = true)
    (hleft : c.shell.host.keysAtHand = left) (computation : Computation) :
    Reads scripts [] left (some 1)
      ((Driver.ofPrograms (programs scripts)).drive id (n + 1) computation c timers) := by
  rw [Driver.drive_of_raised hflag]
  refine ⟨rfl, Driver.deeds_of_raised _ _ hflag, hleft, ?_, fun h => absurd h (by simp)⟩
  rintro result ⟨⟩
  rfl

/-- A boundary at which the flag is down, after an answer that ends the program. -/
theorem reads_drive_of_ends (hflag : c.shell.flag.raised = false)
    (hleft : c.shell.host.keysAtHand = left) {answer : KeyAnswer} (h : Ends answer) :
    Reads scripts [] left (some 0)
      ((Driver.ofPrograms (programs scripts)).drive id (n + 1) (answered answer) c timers) := by
  obtain ⟨hstep, hasks⟩ := step_answered_of_ends scripts h c
  rw [Driver.drive_of_done hflag hstep]
  refine ⟨?_, ?_, hleft, ?_, fun h => absurd h (by simp)⟩
  · simp only [List.flatMap_cons, List.flatMap_nil, Driver.Moment.exchanges, hstep,
      List.append_nil]
  · rw [Driver.deeds_of_step _ _ hflag, hasks]
    rfl
  · rintro result ⟨⟩
    rfl

/-- A boundary at which the flag is down, before the first answer or after one that does not end the
program. -/
theorem reads_drive_of_asks (hflag : c.shell.flag.raised = false) {answer : Option KeyAnswer}
    (h : ∀ a, answer = some a → ¬Ends a)
    (hlook : Reads scripts dialogue left code
      ((Driver.ofPrograms (programs scripts)).lookOn id n (.key answered) c timers)) :
    Reads scripts (.asks :: dialogue) left code
      ((Driver.ofPrograms (programs scripts)).drive id (n + 1) (.pager answer) c timers) := by
  obtain ⟨hstep, hasks⟩ := step_pager_of_asks scripts h c
  rw [Driver.drive_of_key hflag hstep]
  let moments : List (Driver.Moment Computation Millis) :=
    [.boundary (.pager answer) c, .step (.pager answer) c]
  have hsaid : moments.flatMap (Driver.Moment.exchanges (programs scripts)) = [.asks] := by
    simp only [moments, List.flatMap_cons, List.flatMap_nil, Driver.Moment.exchanges, hstep,
      List.nil_append, List.append_nil]
  have hdeeds : moments.flatMap (Driver.Moment.deeds (programs scripts)) = [] := by
    rw [Driver.deeds_of_step _ _ hflag, hasks]
    rfl
  exact hlook.append hsaid hdeeds

/-- A look for a key that gets an answer. -/
theorem reads_lookOn_of_answer {answer : KeyAnswer} (h : c.shell.keyAnswer? id = some answer)
    (hdrive : ∀ flag, flag.raised = c.shell.flag.raised → Reads scripts dialogue left code
      ((Driver.ofPrograms (programs scripts)).drive id n (answered answer)
        { c with shell :=
          { c.shell with host := (c.shell.host.nextKey (.task id)).2, flag } } timers)) :
    Reads scripts (.answers answer :: dialogue) left code
      ((Driver.ofPrograms (programs scripts)).lookOn id n (.key answered) c timers) := by
  obtain ⟨flag, hflag, hlook⟩ := Job.lookAt_key id answered c.shell timers
  rw [h] at hlook
  have hlook : (Driver.ofPrograms (programs scripts)).look id (.key answered) c.shell timers = _ :=
    hlook
  rw [Driver.lookOn, hlook]
  let moments : List (Driver.Moment Computation Millis) := [.look id (.key answered) c.shell timers]
  have hsaid :
      moments.flatMap (Driver.Moment.exchanges (programs scripts)) = [.answers answer] := by
    simp only [moments, List.flatMap_cons, List.flatMap_nil, Driver.Moment.exchanges, h]
    rfl
  exact (hdrive flag hflag).append hsaid rfl

/-- A look for a key that gets none. -/
theorem reads_lookOn_of_none (h : c.shell.keyAnswer? id = none)
    (hkeys : c.shell.host.keysAtHand = []) :
    Reads scripts [] [] none
      ((Driver.ofPrograms (programs scripts)).lookOn id n (.key answered) c timers) := by
  obtain ⟨flag, hflag, hlook⟩ := Job.lookAt_key id answered c.shell timers
  rw [h] at hlook
  have hlook : (Driver.ofPrograms (programs scripts)).look id (.key answered) c.shell timers = _ :=
    hlook
  rw [Driver.lookOn, hlook]
  refine ⟨?_, rfl, (Shell.keyAnswer?_of_nil hkeys id).2, fun _ h => absurd h (by simp),
    fun _ => ⟨c.io, rfl⟩⟩
  simp only [List.flatMap_cons, List.flatMap_nil, Driver.Moment.exchanges, h]
  rfl

/-- Keys that do not end the program are taken one after the other. -/
theorem reads_lookOn_append {front rest : List String} (hfront : Host.enter ∉ front)
    (hkeys : c.shell.host.keysAtHand = front ++ rest) (hflag : c.shell.flag.raised = false)
    (hrest : ∀ later : Context, later.shell.flag.raised = false →
      later.shell.host.keysAtHand = rest → later.shell.host.ended = c.shell.host.ended →
      Reads scripts dialogue left code
        ((Driver.ofPrograms (programs scripts)).lookOn id n (.key answered) later timers)) :
    Reads scripts (front.flatMap turn ++ dialogue) left code
      ((Driver.ofPrograms (programs scripts)).lookOn id (n + front.length) (.key answered) c
        timers) := by
  induction front generalizing c with
  | nil => exact hrest c hflag hkeys rfl
  | cons key front ih =>
    obtain ⟨hkey, hfront⟩ := not_or.1 (fun hor => hfront (List.mem_cons.2 hor))
    obtain ⟨hanswer, hleft, hended⟩ := Shell.keyAnswer?_of_cons hkeys id
    have hasks : ∀ a, some (KeyAnswer.key key) = some a → ¬Ends a := by
      rintro _ ⟨⟩ (hend | hend)
      · exact hkey (KeyAnswer.key.inj hend).symm
      · exact absurd hend (by simp)
    refine reads_lookOn_of_answer hanswer fun flag hsame => ?_
    refine reads_drive_of_asks (hsame.trans hflag) hasks ?_
    exact ih hfront hleft (hsame.trans hflag) fun later hdown hrestKeys hend =>
      hrest later hdown hrestKeys (hend.trans hended)

/-! ### One look after the other -/

/-- There is nothing at hand that ends the program. -/
structure Quiet (sh : Shell) : Prop where
  flag : sh.flag.raised = false
  keys : Host.enter ∉ sh.host.keysAtHand
  input : sh.host.ended = false

/-- What is at hand ends the program: what is said about keys until then, the keys that are left,
and the code. -/
inductive Decides (sh : Shell) : List Exchange → List String → Int → Prop
  | enter {front rest : List String} (flag : sh.flag.raised = false)
      (keys : sh.host.keysAtHand = front ++ Host.enter :: rest) (first : Host.enter ∉ front) :
      Decides sh (front.flatMap turn ++ [.answers (.key Host.enter)]) rest 0
  | ended (flag : sh.flag.raised = false) (keys : Host.enter ∉ sh.host.keysAtHand)
      (input : sh.host.ended = true) :
      Decides sh (sh.host.keysAtHand.flatMap turn ++ [.answers .ended]) [] 0
  /-- A key that has been asked for is the answer even if the flag is up, but is not looked at. -/
  | interruptedKey {key : String} {rest : List String} (flag : sh.flag.raised = true)
      (keys : sh.host.keysAtHand = key :: rest) : Decides sh [.answers (.key key)] rest 1
  | interruptedEnd (flag : sh.flag.raised = true) (keys : sh.host.keysAtHand = [])
      (input : sh.host.ended = true) : Decides sh [.answers .ended] [] 1
  | interrupted (flag : sh.flag.raised = true) (keys : sh.host.keysAtHand = [])
      (input : sh.host.ended = false) : Decides sh [.answers .interrupted] [] 1

/-- Nothing at hand ends the program, or something does. -/
theorem quiet_or_decides (sh : Shell) :
    Quiet sh ∨ ∃ dialogue left code, Decides sh dialogue left code := by
  cases hflag : sh.flag.raised with
  | false =>
    by_cases hkeys : Host.enter ∈ sh.host.keysAtHand
    · obtain ⟨front, rest, hsplit, hfirst⟩ := List.eq_append_cons_of_mem hkeys
      exact .inr ⟨_, _, _, .enter hflag hsplit hfirst⟩
    · cases hinput : sh.host.ended with
      | false => exact .inl ⟨hflag, hkeys, hinput⟩
      | true => exact .inr ⟨_, _, _, .ended hflag hkeys hinput⟩
  | true =>
    cases hkeys : sh.host.keysAtHand with
    | cons key rest => exact .inr ⟨_, _, _, .interruptedKey hflag hkeys⟩
    | nil =>
      cases hinput : sh.host.ended with
      | false => exact .inr ⟨_, _, _, .interrupted hflag hkeys hinput⟩
      | true => exact .inr ⟨_, _, _, .interruptedEnd hflag hkeys hinput⟩

/-- The steps that are allowed are enough for the keys at hand. -/
def Enough (n id : Nat) (sh : Shell) : Prop :=
  sh.keyAnswer? id ≠ none → sh.host.keysAtHand.length < n

/-- A look on a quiet occasion takes all keys at hand and waits for the next. -/
theorem reads_lookOn_of_quiet (h : Quiet c.shell) (hn : Enough n id c.shell) :
    Reads scripts (c.shell.host.keysAtHand.flatMap turn) [] none
      ((Driver.ofPrograms (programs scripts)).lookOn id n (.key answered) c timers) := by
  have hidle : ∀ {later : Context} {m}, later.shell.flag.raised = false →
      later.shell.host.keysAtHand = [] → later.shell.host.ended = false →
      Reads scripts [] [] none
        ((Driver.ofPrograms (programs scripts)).lookOn id m (.key answered) later timers) := by
    intro later m hflag hkeys hended
    refine reads_lookOn_of_none ?_ hkeys
    rw [(Shell.keyAnswer?_of_nil hkeys id).1, hended, hflag]
    rfl
  rcases hkeys : c.shell.host.keysAtHand with _ | ⟨key, rest⟩
  · exact hidle h.flag hkeys h.input
  · have hlt := hn (Shell.keyAnswer?_ne_none (hkeys ▸ List.cons_ne_nil key rest) id)
    obtain ⟨m, rfl⟩ : ∃ m, n = m + (key :: rest).length :=
      ⟨n - (key :: rest).length, by rw [hkeys] at hlt; omega⟩
    rw [← List.append_nil ((key :: rest).flatMap turn)]
    exact reads_lookOn_append (hkeys ▸ h.keys) (hkeys.trans (List.append_nil _).symm) h.flag
      fun later hflag hnil hended => hidle hflag hnil (hended.trans h.input)

/-- The answer ends the program. -/
theorem reads_lookOn_of_ends (hflag : c.shell.flag.raised = false) {answer : KeyAnswer}
    (hanswer : c.shell.keyAnswer? id = some answer) (hends : Ends answer)
    (hleft : (c.shell.host.nextKey (.task id)).2.keysAtHand = left) :
    Reads scripts [.answers answer] left (some 0)
      ((Driver.ofPrograms (programs scripts)).lookOn id (n + 1) (.key answered) c timers) := by
  refine reads_lookOn_of_answer hanswer fun flag hsame => ?_
  exact reads_drive_of_ends (hsame.trans hflag :) hleft hends

/-- The flag is up when there is an answer. -/
theorem reads_lookOn_of_raised (hflag : c.shell.flag.raised = true) {answer : KeyAnswer}
    (hanswer : c.shell.keyAnswer? id = some answer)
    (hleft : (c.shell.host.nextKey (.task id)).2.keysAtHand = left) (hn : Enough n id c.shell) :
    Reads scripts [.answers answer] left (some 1)
      ((Driver.ofPrograms (programs scripts)).lookOn id n (.key answered) c timers) := by
  have hlt := hn (by rw [hanswer]; exact Option.some_ne_none answer)
  obtain ⟨m, rfl⟩ : ∃ m, n = m + 1 := ⟨n - 1, by omega⟩
  refine reads_lookOn_of_answer hanswer fun flag hsame => ?_
  exact reads_drive_of_raised (hsame.trans hflag :) hleft _

/-- A look takes what is at hand up to what ends the program. -/
theorem reads_lookOn_of_decides {result : Int} (h : Decides c.shell dialogue left result)
    (hn : Enough n id c.shell) :
    Reads scripts dialogue left (some result)
      ((Driver.ofPrograms (programs scripts)).lookOn id n (.key answered) c timers) := by
  cases h with
  | @enter front _ hflag hkeys hfirst =>
    have hlt := hn (Shell.keyAnswer?_ne_none (by simp [hkeys]) id)
    rw [hkeys, List.length_append, List.length_cons] at hlt
    obtain ⟨m, rfl⟩ : ∃ m, n = m + 1 + front.length := ⟨n - 1 - front.length, by omega⟩
    refine reads_lookOn_append hfirst hkeys hflag fun later hdown hrest _ => ?_
    obtain ⟨hanswer, hleft, -⟩ := Shell.keyAnswer?_of_cons hrest id
    exact reads_lookOn_of_ends hdown hanswer (.inl rfl) hleft
  | ended hflag hkeys hended =>
    have hlt : c.shell.host.keysAtHand.length < n := by
      refine hn ?_
      by_cases hnil : c.shell.host.keysAtHand = []
      · rw [(Shell.keyAnswer?_of_nil hnil id).1, if_pos hended]
        exact Option.some_ne_none _
      · exact Shell.keyAnswer?_ne_none hnil id
    obtain ⟨m, rfl⟩ : ∃ m, n = m + 1 + c.shell.host.keysAtHand.length :=
      ⟨n - 1 - c.shell.host.keysAtHand.length, by omega⟩
    refine reads_lookOn_append hkeys (List.append_nil _).symm hflag fun later hdown hnil hsame => ?_
    obtain ⟨hanswer, hleft⟩ := Shell.keyAnswer?_of_nil hnil id
    rw [if_pos (hsame.trans hended)] at hanswer
    exact reads_lookOn_of_ends hdown hanswer (.inr rfl) hleft
  | interruptedKey hflag hkeys =>
    obtain ⟨hanswer, hleft, -⟩ := Shell.keyAnswer?_of_cons hkeys id
    exact reads_lookOn_of_raised hflag hanswer hleft hn
  | interruptedEnd hflag hkeys hended =>
    obtain ⟨hanswer, hleft⟩ := Shell.keyAnswer?_of_nil hkeys id
    rw [if_pos hended] at hanswer
    exact reads_lookOn_of_raised hflag hanswer hleft hn
  | interrupted hflag hkeys hended =>
    obtain ⟨hanswer, hleft⟩ := Shell.keyAnswer?_of_nil hkeys id
    rw [hended, if_neg Bool.false_ne_true, if_pos hflag] at hanswer
    exact reads_lookOn_of_raised hflag hanswer hleft hn

/-! ### One poll after the other -/

/-- A poll may take as many steps as there are keys at hand. -/
theorem exists_lookOn_of_poll (scripts : List (String × ProgramScript)) (id : Nat) (io : Io)
    (sh : Shell) (timers : TimerQueue Millis Waker) : ∃ n,
      (Driver.ofPrograms (programs scripts)).poll id io (.key answered) sh timers =
          (Driver.ofPrograms (programs scripts)).lookOn id n (.key answered) { shell := sh, io }
            timers ∧
        Enough n id sh := by
  obtain ⟨n, hpoll, hn⟩ :=
    (Driver.ofPrograms (programs scripts)).poll_eq_lookOn id io (.key answered) sh timers
  refine ⟨n, hpoll, fun hsome => ?_⟩
  obtain ⟨answer, hanswer⟩ := Option.ne_none_iff_exists'.1 hsome
  obtain ⟨flag, -, hlook⟩ := Job.lookAt_key id answered sh timers
  rw [hanswer] at hlook
  rw [hn _ _ _ hlook]
  show _ < (sh.host.nextKey (.task id)).2.keysAhead + 2 + 1
  rw [← Host.length_keysAtHand]
  rcases hkeys : sh.host.keysAtHand with _ | ⟨key, rest⟩
  · exact Nat.succ_pos _
  · rw [(Shell.keyAnswer?_of_cons hkeys id).2.1, List.length_cons]
    omega

/-- The keys at hand on all occasions. -/
def keysOn (occasions : List (Driver.Occasion Millis)) : List String :=
  occasions.flatMap fun occasion => occasion.shell.host.keysAtHand

/-- Quiet occasions, after a poll that has left the program waiting for a key. -/
theorem reads_follow_append {said : List Exchange}
    {moments : List (Driver.Moment Computation Millis)} {p : JobPoll Computation Millis}
    (hp : Reads scripts said [] none (moments, p)) {before rest : List (Driver.Occasion Millis)}
    (hquiet : ∀ occasion ∈ before, Quiet occasion.shell)
    (hrest : ∀ p, Reads scripts [] [] none ([], p) → Reads scripts dialogue left code
      ((Driver.ofPrograms (programs scripts)).follow rest p)) :
    let later := (Driver.ofPrograms (programs scripts)).follow (before ++ rest) p
    Reads scripts (said ++ ((keysOn before).flatMap turn ++ dialogue)) left code
      (moments ++ later.1, later.2) := by
  induction before generalizing said moments p with
  | nil =>
    have hwaits : Reads scripts [] [] none ([], p) := ⟨rfl, rfl, hp.left, hp.ends, hp.waits⟩
    exact (hrest p hwaits).append hp.exchanges hp.deeds
  | cons occasion before ih =>
    obtain ⟨hfirst, hbefore⟩ := List.forall_mem_cons.1 hquiet
    obtain ⟨io, hio⟩ := hp.waits rfl
    obtain ⟨n, hpoll, hn⟩ :=
      exists_lookOn_of_poll scripts occasion.id io occasion.shell occasion.timers
    have hpolled : Reads scripts (occasion.shell.host.keysAtHand.flatMap turn) [] none
        ((Driver.ofPrograms (programs scripts)).poll occasion.id io (.key answered) occasion.shell
          occasion.timers) := by
      let looking : Context := { shell := occasion.shell, io }
      have hquiet : Quiet looking.shell := hfirst
      rw [hpoll]
      exact reads_lookOn_of_quiet hquiet hn
    have hall := ih (hpolled.append hp.exchanges hp.deeds) hbefore
    intro later
    have hlater : later = _ := Driver.follow_of_waits hio occasion (before ++ rest)
    rw [hlater]
    simpa only [keysOn, List.flatMap_cons, List.flatMap_append, List.append_assoc] using hall

/-- An occasion on which the program ends. -/
theorem reads_follow_of_decides {p : JobPoll Computation Millis} {io : Io}
    (hp : p.progress = .waits (.suspended io (.key answered)))
    {occasion : Driver.Occasion Millis} {result : Int}
    (h : Decides occasion.shell dialogue left result) (after : List (Driver.Occasion Millis)) :
    Reads scripts dialogue left (some result)
      ((Driver.ofPrograms (programs scripts)).follow (occasion :: after) p) := by
  obtain ⟨n, hpoll, hn⟩ :=
    exists_lookOn_of_poll scripts occasion.id io occasion.shell occasion.timers
  have hpolled : Reads scripts dialogue left (some result)
      ((Driver.ofPrograms (programs scripts)).poll occasion.id io (.key answered) occasion.shell
        occasion.timers) := by
    rw [hpoll]
    exact reads_lookOn_of_decides h hn
  rw [Driver.follow_of_waits hp]
  simp only [Driver.follow_of_ends (hpolled.ends result rfl), List.append_nil]
  exact hpolled

/-! ### All polls -/

/-- The first poll, if the flag is down. -/
theorem reads_goOn (hflag : c.shell.flag.raised = false)
    (h : ∀ n, Enough n id c.shell → Reads scripts dialogue left code
      ((Driver.ofPrograms (programs scripts)).lookOn id n (.key answered) c timers)) :
    Reads scripts (.asks :: dialogue) left code
      ((Driver.ofPrograms (programs scripts)).goOn id (.pager none) c timers) := by
  refine reads_drive_of_asks hflag (fun _ hnone => absurd hnone (by simp)) (h _ fun _ => ?_)
  rw [Host.length_keysAtHand]
  exact Nat.lt_add_of_pos_right (Nat.succ_pos 1)

/-- A first poll that ends the program. -/
theorem reads_run_of_first {result : Int} (occasions : List (Driver.Occasion Millis))
    (h : Reads scripts dialogue left (some result)
      ((Driver.ofPrograms (programs scripts)).goOn id (.pager none) c timers)) :
    Reads scripts dialogue left (some result)
      ((Driver.ofPrograms (programs scripts)).run id (.pager none) c timers occasions) := by
  rcases hgo : (Driver.ofPrograms (programs scripts)).goOn id (.pager none) c timers with
    ⟨moments, p⟩
  rw [hgo] at h
  rw [Driver.run_of_ends hgo (h.ends result rfl)]
  exact h

/-- A quiet first poll, and some quiet occasions after it. -/
theorem reads_run_append (hfirst : Quiet c.shell) {before rest : List (Driver.Occasion Millis)}
    (hquiet : ∀ occasion ∈ before, Quiet occasion.shell)
    (hrest : ∀ p, Reads scripts [] [] none ([], p) → Reads scripts dialogue left code
      ((Driver.ofPrograms (programs scripts)).follow rest p)) :
    Reads scripts
      (.asks :: ((c.shell.host.keysAtHand ++ keysOn before).flatMap turn ++ dialogue)) left code
      ((Driver.ofPrograms (programs scripts)).run id (.pager none) c timers (before ++ rest)) := by
  have hbegun : Reads scripts (.asks :: c.shell.host.keysAtHand.flatMap turn) [] none
      ((Driver.ofPrograms (programs scripts)).goOn id (.pager none) c timers) :=
    reads_goOn hfirst.flag fun n hn => reads_lookOn_of_quiet hfirst hn
  rcases hgo : (Driver.ofPrograms (programs scripts)).goOn id (.pager none) c timers with
    ⟨moments, p⟩
  rw [hgo] at hbegun
  rw [Driver.run, hgo]
  have hall := reads_follow_append hbegun hquiet hrest
  simpa only [List.flatMap_append, List.cons_append, List.append_assoc] using hall

/-- Either nothing ends the program on any of the occasions, or there is a first one on which it
ends. -/
theorem quiet_or_first_decides (occasions : List (Driver.Occasion Millis)) :
    (∀ occasion ∈ occasions, Quiet occasion.shell) ∨
      ∃ before occasion after dialogue left code, occasions = before ++ occasion :: after ∧
        (∀ earlier ∈ before, Quiet earlier.shell) ∧ Decides occasion.shell dialogue left code := by
  induction occasions with
  | nil => exact .inl fun _ hmem => absurd hmem List.not_mem_nil
  | cons first rest ih =>
    rcases quiet_or_decides first.shell with hquiet | ⟨dialogue, left, code, hdecides⟩
    · rcases ih with hrest | ⟨before, occasion, after, dialogue, left, code, rfl, hbefore, hdecides⟩
      · exact .inl (List.forall_mem_cons.2 ⟨hquiet, hrest⟩)
      · exact .inr ⟨first :: before, occasion, after, dialogue, left, code, rfl,
          List.forall_mem_cons.2 ⟨hquiet, hbefore⟩, hdecides⟩
    · exact .inr ⟨[], first, rest, dialogue, left, code, rfl,
        fun _ hmem => absurd hmem List.not_mem_nil, hdecides⟩

/-- All polls of the program: the one in which it is run, and those on the occasions. -/
def pollsOf (id : Nat) (c : Context) (timers : TimerQueue Millis Waker)
    (occasions : List (Driver.Occasion Millis)) : List (Driver.Occasion Millis) :=
  ⟨id, c.shell, timers⟩ :: occasions

/-- Nothing ends the program on any occasion. -/
theorem reads_run_of_quiet (occasions : List (Driver.Occasion Millis))
    (h : ∀ poll ∈ pollsOf id c timers occasions, Quiet poll.shell) :
    Reads scripts (.asks :: (keysOn (pollsOf id c timers occasions)).flatMap turn) [] none
      ((Driver.ofPrograms (programs scripts)).run id (.pager none) c timers occasions) := by
  obtain ⟨hfirst, hrest⟩ := List.forall_mem_cons.1 h
  have hall : Reads scripts
      (.asks :: ((keysOn (pollsOf id c timers occasions)).flatMap turn ++ [])) [] none
      ((Driver.ofPrograms (programs scripts)).run id (.pager none) c timers (occasions ++ [])) :=
    reads_run_append hfirst hrest fun p hp => hp
  rwa [List.append_nil, List.append_nil] at hall

/-- There is a first occasion on which something ends the program. -/
theorem reads_run_of_decides (hflag : c.shell.flag.raised = false)
    {occasions before after : List (Driver.Occasion Millis)} {poll : Driver.Occasion Millis}
    {result : Int} (hpolls : pollsOf id c timers occasions = before ++ poll :: after)
    (hquiet : ∀ earlier ∈ before, Quiet earlier.shell)
    (hdecides : Decides poll.shell dialogue left result) :
    Reads scripts (.asks :: ((keysOn before).flatMap turn ++ dialogue)) left (some result)
      ((Driver.ofPrograms (programs scripts)).run id (.pager none) c timers occasions) := by
  cases before with
  | nil =>
    obtain ⟨rfl, -⟩ := List.cons.inj hpolls
    refine reads_run_of_first occasions (reads_goOn hflag fun n hn => ?_)
    exact reads_lookOn_of_decides hdecides hn
  | cons first before =>
    obtain ⟨rfl, rfl⟩ := List.cons.inj hpolls
    obtain ⟨hfirst, hbefore⟩ := List.forall_mem_cons.1 hquiet
    refine reads_run_append hfirst hbefore fun p hp => ?_
    obtain ⟨io, hwaits⟩ := hp.waits rfl
    exact reads_follow_of_decides hwaits hdecides after

/-- Whatever arrives, reading keys does nothing else. -/
theorem exists_reads_run (scripts : List (String × ProgramScript)) (id : Nat) (c : Context)
    (timers : TimerQueue Millis Waker) (occasions : List (Driver.Occasion Millis)) :
    ∃ dialogue left code, Reads scripts dialogue left code
      ((Driver.ofPrograms (programs scripts)).run id (.pager none) c timers occasions) := by
  cases hflag : c.shell.flag.raised with
  | true => exact ⟨_, _, _, reads_run_of_first occasions (reads_drive_of_raised hflag rfl _)⟩
  | false =>
    rcases quiet_or_first_decides (pollsOf id c timers occasions) with
      hquiet | ⟨before, poll, after, dialogue, left, code, hpolls, hquiet, hdecides⟩
    · exact ⟨_, _, _, reads_run_of_quiet occasions hquiet⟩
    · exact ⟨_, _, _, reads_run_of_decides hflag hpolls hquiet hdecides⟩

/-- Reading keys writes no line. -/
theorem Reads.writes_nothing (h : Reads scripts dialogue left code driven) :
    (∀ deed ∈ driven.1.flatMap (Driver.Moment.deeds (programs scripts)), deed.Plain) ∧
      Deed.lines (driven.1.flatMap (Driver.Moment.deeds (programs scripts))) = [] := by
  rw [h.deeds]
  by_cases hcode : code = some cancelledCode
  · rw [if_pos hcode]
    exact ⟨List.forall_mem_singleton.2 .cancelled, rfl⟩
  · rw [if_neg hcode]
    exact ⟨fun _ hdeed => absurd hdeed List.not_mem_nil, rfl⟩

/-- What has been written before is all that arrives. -/
theorem delivered_run {start : Context} {lines : List String}
    (h : start.Wrote lines c.shell c.io) {occasions : List (Driver.Occasion Millis)}
    (hsame : ∀ occasion ∈ occasions, occasion.shell.fs = c.shell.fs ∧
      occasion.shell.host.events = c.shell.host.events)
    (hbuilt : start.io.Built start.shell.fs)
    (hdistinct : OpenFile.Distinct (start.io.outputs.map Output.file)) :
    Job.Delivered start lines
      ((Driver.ofPrograms (programs scripts)).run id (.pager none) c timers occasions).2 := by
  obtain ⟨dialogue, left, code, hreads⟩ := exists_reads_run scripts id c timers occasions
  obtain ⟨hplain, hlines⟩ := hreads.writes_nothing
  obtain ⟨hpoll, hdeeds⟩ :=
    Driver.run_ofPrograms (programs scripts) id (.pager none) c timers occasions
  rw [hdeeds] at hplain hlines
  obtain ⟨hfirst, hlater⟩ := List.forall_mem_append.1 hplain
  obtain ⟨hnone, hlast⟩ := List.append_eq_nil_iff.1 ((Deed.lines_append _ _).symm.trans hlines)
  have hbegun := Job.writes_goOn (programs scripts) id (.pager none) h timers hfirst
  rw [hnone, List.append_nil] at hbegun
  rw [h.fs, h.events] at hsame
  have hwrites := hbegun.follow (hbegun.alone hsame hlater hlast) hlater
  rw [hlast, List.append_nil, ← hpoll] at hwrites
  exact hwrites.delivered hbuilt hdistinct

/-! ### The program -/

/-- The shell has the filesystem and what the host has been told changed, and nothing else. -/
def Shows (sh later : Shell) : Prop :=
  ∃ fs events, later = { sh with fs, host := { sh.host with events } }

/-- Showing more shows. -/
theorem Shows.trans {sh later last : Shell} (h : Shows sh later) (hlast : Shows later last) :
    Shows sh last := by
  obtain ⟨fs, events, rfl⟩ := h
  obtain ⟨fs', events', rfl⟩ := hlast
  exact ⟨fs', events', rfl⟩

/-- A line changes the filesystem and what the host has been told at most. -/
theorem shows_writeLine (c : Context) (line : String) :
    Shows c.shell (c.answer (.writeLine line)).2.shell := by
  obtain ⟨io, fs, reports, hwrite⟩ := c.io.exists_writeLine_eq line c.shell.fs
  refine ⟨fs, c.shell.host.events ++ reports.toArray, ?_⟩
  simp only [Context.answer, hwrite, Host.tellAll_eq]

/-- The lines in which a text is shown. -/
def page (text : String) : List String :=
  [text, "", " === Press Enter to Finish === "]

/-- The context in which a file has been read and the screen has been cleared. -/
def opened (c : Context) (path : String) (entry : Entry) : Context :=
  let read := ((c.shell.getPath path).2.readEntry entry).2
  { c with shell := { read with host := read.host.tell .clear } }

/-- Reading a file and clearing the screen changes no more than that. -/
theorem shows_opened (c : Context) (path : String) (entry : Entry) :
    Shows c.shell (opened c path entry).shell := by
  unfold opened
  rw [c.shell.fs_getPath path]
  exact ⟨_, _, rfl⟩

/-- Reading a file leaves redirections as they have been built. -/
theorem built_opened {io : Io} (h : io.Built c.shell.fs) (path : String) (entry : Entry) :
    io.Built (opened c path entry).shell.fs := by
  have hview : c.shell.fs.Viewed (c.shell.getPath path).2.fs := by
    rw [c.shell.fs_getPath path]
    exact c.shell.fs.viewed_get _
  refine ⟨h.fresh, fun out hout => (h.outputs out hout).of_nodes fun spot hnode => ?_, h.inputs⟩
  obtain ⟨node, hnode⟩ := Option.isSome_iff_exists.1 hnode
  exact Option.isSome_of_eq_some (hview.nodeAt? hnode)

/-- What the program asks for when it shows a file, and what comes of it. -/
theorem less_requests (scripts : List (String × ProgramScript)) {path : String} {entry : Entry}
    {text : String} (hget : (c.shell.getPath path).1 = .ok entry)
    (hfile : entry.isDirectory = false)
    (htext : ((c.shell.getPath path).2.readEntry entry).1 = .ok text) (more : List String) :
    let routine := (Command.program "less").run (programs scripts) (path :: more)
    routine.requests c = [.getPath path, .readEntry entry, .clear, .writeLine text, .writeLine "",
        .writeLine " === Press Enter to Finish === "] ∧
      (routine.run c).1 = .suspend (.pager none) ∧ Shows c.shell (routine.run c).2.shell ∧
      (opened c path entry).Wrote (page text) (routine.run c).2.shell (routine.run c).2.io := by
  intro routine
  have hroutine : routine = less (path :: more) := rfl
  rw [hroutine]
  unfold less readFile
  simp only [Bind.bind, Routine.bind, Routine.request, Routine.requests, Routine.run,
    Context.answer, hget, hfile, if_neg Bool.false_ne_true, htext]
  have hwrites := fun k : Context => shows_writeLine k
  exact ⟨rfl, rfl, (((shows_opened c path entry).trans (hwrites _ _)).trans (hwrites _ _)).trans
    (hwrites _ _), ⟨rfl, rfl, rfl⟩⟩

/-- The program that shows a file and reads keys, in the poll in which it is run and on all
occasions that follow, whatever keys, end of the input or signal have arrived in between.

A file that can be read is shown once, and no key is taken for that.  If the flag is up then, the
program ends with code 1 and asks for no key.  Otherwise it asks for keys, one at a time: as long as
nothing at hand ends it, it takes all keys that have arrived and waits for the next.  The first
occasion on which there is something that ends it decides: it takes the keys up to the first `Enter`
and ends with code 0; or, if there is none and the input has ended, it takes all keys and the one
answer that there are no more, and ends with code 0; or, if the flag is up, it ends with code 1
after the answer to the key that it has asked for, which is a key that is there, or that there are
no more, or that it has been interrupted.  It asks for nothing after that.

As long as the polls find the files and what the host has been told as the page has left them, its
lines are all that reaches the outputs, or the host if there are none. -/
theorem less_run (scripts : List (String × ProgramScript)) {c : Context} {path : String}
    {entry : Entry} {text : String} (hget : (c.shell.getPath path).1 = .ok entry)
    (hfile : entry.isDirectory = false)
    (htext : ((c.shell.getPath path).2.readEntry entry).1 = .ok text) (more : List String) :
    let routine := (Command.program "less").run (programs scripts) (path :: more)
    let begun := (routine.run c).2
    (routine.requests c = [.getPath path, .readEntry entry, .clear, .writeLine text, .writeLine "",
        .writeLine " === Press Enter to Finish === "] ∧
      (routine.run c).1 = .suspend (.pager none) ∧ Shows c.shell begun.shell ∧
      (opened c path entry).Wrote (page text) begun.shell begun.io) ∧
    ∀ (id : Nat) (timers : TimerQueue Millis Waker) (occasions : List (Driver.Occasion Millis)),
      let driven :=
        (Driver.ofPrograms (programs scripts)).run id (.pager none) begun timers occasions
      let polls : List (Driver.Occasion Millis) := ⟨id, begun.shell, timers⟩ :: occasions
      driven.2 = Job.follow (programs scripts) occasions
          (Job.goOn (programs scripts) id (.pager none) begun timers) ∧
        ((∀ occasion ∈ occasions, occasion.shell.fs = begun.shell.fs ∧
            occasion.shell.host.events = begun.shell.host.events) →
          c.io.Built c.shell.fs → OpenFile.Distinct (c.io.outputs.map Output.file) →
          Job.Delivered (opened c path entry) (page text) driven.2) ∧
        ((∀ poll ∈ polls, Quiet poll.shell) ∨
          ∃ before poll after dialogue left code, polls = before ++ poll :: after ∧
            (∀ earlier ∈ before, Quiet earlier.shell) ∧ Decides poll.shell dialogue left code) ∧
        (c.shell.flag.raised = true →
          Reads scripts [] c.shell.host.keysAtHand (some 1) driven) ∧
        (c.shell.flag.raised = false →
          ((∀ poll ∈ polls, Quiet poll.shell) →
            Reads scripts (.asks :: (keysOn polls).flatMap turn) [] none driven) ∧
          ∀ before poll after dialogue left code, polls = before ++ poll :: after →
            (∀ earlier ∈ before, Quiet earlier.shell) → Decides poll.shell dialogue left code →
            Reads scripts (.asks :: ((keysOn before).flatMap turn ++ dialogue)) left (some code)
              driven) := by
  intro routine begun
  have hshown := less_requests scripts hget hfile htext more
  obtain ⟨fs, events, hbegun⟩ : Shows c.shell begun.shell := hshown.2.2.1
  have hflag : begun.shell.flag = c.shell.flag := congrArg (·.flag) hbegun
  have hkeys : begun.shell.host.keysAtHand = c.shell.host.keysAtHand :=
    congrArg (·.host.keysAtHand) hbegun
  refine ⟨hshown, fun id timers occasions => ?_⟩
  intro driven polls
  refine ⟨(Driver.run_ofPrograms _ id _ begun timers occasions).1, fun hsame hbuilt hdistinct =>
    delivered_run hshown.2.2.2 hsame (built_opened hbuilt path entry) hdistinct,
    quiet_or_first_decides polls, fun hraised => ?_,
    fun hdown => ⟨reads_run_of_quiet occasions, fun before poll after dialogue left code => ?_⟩⟩
  · refine reads_run_of_first occasions ?_
    exact reads_drive_of_raised (hflag ▸ hraised) hkeys _
  · exact reads_run_of_decides (hflag ▸ hdown)

/-- A shell with a file, and a key that has been pressed. -/
def pagedShell : Shell where
  fs := FileSystem.mount {}
    { device := "none", mountPoint := "/", typeName := "jfs", options := "" }
    (.supplied (.dir [("f", .text "one")]))
  host := { keys := ["q"] }
  draws := .ofSeed 0

/-- An occasion that finds a shell as it was, but for the keys and the flag. -/
def pagedOn (sh : Shell) (input : StandardInput) (raised : Bool) : Driver.Occasion Millis where
  id := 0
  shell := { sh with host := { sh.host with keys := [], input }, flag := { raised } }
  timers := .empty

/-- Such an occasion finds the filesystem and what the host has been told as they were. -/
theorem same_pagedOn (sh : Shell) (input : StandardInput) (raised : Bool) :
    (pagedOn sh input raised).shell.fs = sh.fs ∧
      (pagedOn sh input raised).shell.host.events = sh.host.events :=
  ⟨rfl, rfl⟩

/-- The key that is there is taken at once.  When a line is typed later its keys are taken up to the
first `Enter`; when the shell is signalled instead, the program is cancelled.  Both times the page
has arrived. -/
theorem less_run_later :
    let c : Context := { shell := pagedShell, io := { command := "less" } }
    let entry : Entry := ⟨"/f", "f", false, .file (.text "one")⟩
    let begun := (((Command.program "less").run (programs []) ["/f"]).run c).2
    let on := pagedOn begun.shell
    let driven (last : Driver.Occasion Millis) :=
      (Driver.ofPrograms (programs [])).run 0 (.pager none) begun .empty
        [on (.fixed "") false, last]
    (Reads [] [.asks, .answers (.key "q"), .asks, .answers (.key "a"), .asks,
        .answers (.key Host.enter)] ["b", Host.enter] (some 0)
        (driven (on (.lines ["a", "b"]) false)) ∧
      Job.Delivered (opened c "/f" entry) (page "one")
        (driven (on (.lines ["a", "b"]) false)).2) ∧
      Reads [] [.asks, .answers (.key "q"), .asks, .answers .interrupted] [] (some 1)
        (driven (on (.fixed "") true)) ∧
      Job.Delivered (opened c "/f" entry) (page "one") (driven (on (.fixed "") true)).2 := by
  intro c entry begun on driven
  have hget : (pagedShell.getPath "/f").1 = .ok entry := by rfl
  obtain ⟨-, hrun⟩ := less_run [] (c := c) hget rfl rfl []
  have hquiet : ∀ earlier ∈ [⟨0, begun.shell, .empty⟩, on (.fixed "") false],
      Quiet earlier.shell := by
    intro earlier hmem
    simp only [List.mem_cons, List.not_mem_nil, or_false] at hmem
    rcases hmem with rfl | rfl
    · exact ⟨by decide +kernel, by decide +kernel, by decide +kernel⟩
    · exact ⟨rfl, by decide +kernel, by decide +kernel⟩
  have hquietKeys : (keysOn [⟨0, begun.shell, .empty⟩, on (.fixed "") false]).flatMap turn =
      turn "q" := by
    decide +kernel
  have hall : ∀ input raised {dialogue left code},
      Decides (on input raised).shell dialogue left code →
      Reads [] (.asks :: (turn "q" ++ dialogue)) left (some code) (driven (on input raised)) ∧
        Job.Delivered (opened c "/f" entry) (page "one") (driven (on input raised)).2 := by
    intro input raised dialogue left code hlast
    obtain ⟨-, hdelivered, -, -, hdown⟩ :=
      hrun 0 .empty [on (.fixed "") false, on input raised]
    have hreads := (hdown rfl).2 [⟨0, begun.shell, .empty⟩, on (.fixed "") false]
      (on input raised) [] dialogue left code rfl hquiet hlast
    rw [hquietKeys] at hreads
    have hbuilt : c.io.Built c.shell.fs :=
      ⟨fun _ h => absurd h List.not_mem_nil, fun _ h => absurd h List.not_mem_nil,
        fun _ h => absurd h List.not_mem_nil⟩
    have hbegun : (((Command.program "less").run (programs []) ["/f"]).run c).2 = begun := rfl
    refine ⟨hreads, hdelivered (fun occasion hmem => ?_) hbuilt List.nodup_nil⟩
    simp only [List.mem_cons, List.not_mem_nil, or_false] at hmem
    rw [hbegun]
    rcases hmem with rfl | rfl <;> exact same_pagedOn _ _ _
  have htyped : (on (.lines ["a", "b"]) false).shell.host.keysAtHand =
      ["a"] ++ Host.enter :: ["b", Host.enter] := by
    decide +kernel
  obtain ⟨hreads, hdelivered⟩ := hall (.lines ["a", "b"]) false (.enter rfl htyped (by decide))
  exact ⟨⟨hreads, hdelivered⟩,
    hall (.fixed "") true (.interrupted rfl (by decide +kernel) (by decide +kernel))⟩

end Stock

end MountShell
