import Mathlib.Data.List.Chain
import MountShell.Line.Token

/-!
# Scanning a rendered line

Which lists of tokens can be written down as a line and read back.  A word is *writable* if it is
not empty, if its segments can be written in the way that they claim, and if no two bare segments
stand next to each other, because the scanner would take them for one.

The scanner itself produces writable tokens only, except that the end of a line can leave a bare
segment that ends in a backslash.  Such a segment is read back where it was found, at the end of a
line, and nowhere else.

What the scanner does with a text that completes no token is said by `State.Reaches`, which
composes along the text.  In the other direction, `State.Sound` is what every character keeps true
of the open word, and every token that a sound state gives up is writable.

Main statement: `Token.scan_rendered`, scanning undoes rendering, and rendering undoes scanning up
to another scan.
-/

namespace MountShell

/-- A character that means nothing but itself outside quotes. -/
@[mk_iff]
structure IsBareChar (c : Char) : Prop where
  notBlank : Text.isBlank c = false
  notSingle : c ≠ '\''
  notDouble : c ≠ '"'
  notBackslash : c ≠ '\\'
  notGreater : c ≠ '>'
  notLess : c ≠ '<'

instance : DecidablePred IsBareChar := fun c => decidable_of_iff _ (isBareChar_iff c).symm

namespace Segment

/-- The segment can be written in the way that it claims, and read back. -/
def Writable (segment : Segment) : Prop :=
  match segment.quoting with
  | .bare => segment.text ≠ "" ∧ ∀ c ∈ segment.text.toList, IsBareChar c
  | .single => '\'' ∉ segment.text.toList
  | .double => True
  | .escaped => segment.text.toList.length = 1

instance : DecidablePred Writable
  | ⟨text, .bare⟩ =>
    -- an instance for all characters would try every one of them
    haveI : Decidable (∀ c ∈ text.toList, IsBareChar c) := List.decidableBAll IsBareChar _
    inferInstanceAs (Decidable (text ≠ "" ∧ ∀ c ∈ text.toList, IsBareChar c))
  | ⟨text, .single⟩ => inferInstanceAs (Decidable ('\'' ∉ text.toList))
  | ⟨_, .double⟩ => inferInstanceAs (Decidable True)
  | ⟨text, .escaped⟩ => inferInstanceAs (Decidable (text.toList.length = 1))

/-- At most one of two neighbours is bare. -/
def Apart (a b : Segment) : Prop :=
  ¬(a.quoting = .bare ∧ b.quoting = .bare)

instance : DecidableRel Apart := fun a b =>
  inferInstanceAs (Decidable ¬(a.quoting = .bare ∧ b.quoting = .bare))

end Segment

namespace Token

/-- The token can be written down and read back. -/
def Writable : Token → Prop
  | .word segments =>
    (∃ segment ∈ segments, segment.text ≠ "") ∧ (∀ segment ∈ segments, segment.Writable) ∧
      segments.IsChain Segment.Apart
  | .redirect _ => True

instance : DecidablePred Writable
  | .word segments =>
    inferInstanceAs (Decidable ((∃ segment ∈ segments, segment.text ≠ "") ∧
      (∀ segment ∈ segments, segment.Writable) ∧ segments.IsChain Segment.Apart))
  | .redirect _ => inferInstanceAs (Decidable True)

/-- A word that ends in a bare segment with a backslash as its last character, and is writable
otherwise. -/
def EndsInBackslash (token : Token) : Prop :=
  ∃ segments text,
    token = .word (segments ++ [⟨String.ofList (text ++ ['\\']), .bare⟩]) ∧
      (∀ segment ∈ segments, segment.Writable) ∧
      (segments ++ [⟨String.ofList (text ++ ['\\']), .bare⟩]).IsChain Segment.Apart ∧
      ∀ c ∈ text, IsBareChar c

/-- The tokens are writable, except that the last one may end in a backslash. -/
def WritableAtEnd (tokens : List Token) : Prop :=
  (∀ token ∈ tokens, token.Writable) ∨
    ∃ before last, tokens = before ++ [last] ∧ (∀ token ∈ before, token.Writable) ∧
      last.EndsInBackslash

/-- One more token in front of tokens that can be written at the end of a line. -/
theorem WritableAtEnd.cons {token : Token} {tokens : List Token} (h : token.Writable)
    (hrest : WritableAtEnd tokens) : WritableAtEnd (token :: tokens) := by
  rcases hrest with hall | ⟨before, last, rfl, hbefore, hlast⟩
  · exact .inl (List.forall_mem_cons.2 ⟨h, hall⟩)
  · exact .inr ⟨token :: before, last, rfl, List.forall_mem_cons.2 ⟨h, hbefore⟩, hlast⟩

/-- Any number of them. -/
theorem WritableAtEnd.append {first rest : List Token} (h : ∀ token ∈ first, token.Writable)
    (hrest : WritableAtEnd rest) : WritableAtEnd (first ++ rest) := by
  induction first with
  | nil => exact hrest
  | cons token first ih =>
    obtain ⟨htoken, hfirst⟩ := List.forall_mem_cons.1 h
    exact (ih hfirst).cons htoken

end Token

namespace Scanner.State

variable {s s' s'' : State} {cs ds : List Char}

/-! ### Texts that complete no token -/

/-- Reading `cs` leads from one state to the other and completes no token. -/
def Reaches (s : State) (cs : List Char) (s' : State) : Prop :=
  ∀ rest, s.run (cs ++ rest) = s'.run rest

/-- No characters lead nowhere. -/
theorem Reaches.refl (s : State) : s.Reaches [] s :=
  fun _ => rfl

/-- Characters that lead on from where others have led. -/
theorem Reaches.trans (h : s.Reaches cs s') (h' : s'.Reaches ds s'') :
    s.Reaches (cs ++ ds) s'' := by
  intro rest
  rw [List.append_assoc, h, h']

/-- One character that completes no token, and then others. -/
theorem Reaches.cons {c : Char} (h : s.step c = (s', [])) (h' : s'.Reaches cs s'') :
    s.Reaches (c :: cs) s'' := by
  intro rest
  rw [List.cons_append, run, h]
  exact h' rest

/-- A single character that completes no token. -/
theorem Reaches.of_step {c : Char} (h : s.step c = (s', [])) : s.Reaches [c] s' :=
  .cons h (.refl s')

/-- What the end of the line completes once the text has been read. -/
theorem Reaches.run_eq (h : s.Reaches cs s') : s.run cs = s'.finish := by
  have hend := h []
  rwa [List.append_nil] at hend

/-- A bare character is added to the open segment. -/
theorem stepPlain_of_isBareChar {c : Char} (h : IsBareChar c) (s : State) :
    s.stepPlain c = ({ s with mode := .plain, bare := s.bare ++ [c] }, []) := by
  simp [stepPlain, h.notBlank, h.notSingle, h.notDouble, h.notBackslash, h.notGreater, h.notLess]

/-- Bare characters gather in the state. -/
theorem reaches_bare (word : List Segment) (bare : List Char) (h : ∀ c ∈ cs, IsBareChar c) :
    Reaches { word, bare } cs { word, bare := bare ++ cs } := by
  induction cs generalizing bare with
  | nil => rw [List.append_nil]; exact .refl _
  | cons c cs ih =>
    obtain ⟨hc, hcs⟩ := List.forall_mem_cons.1 h
    rw [List.append_cons]
    exact .cons (stepPlain_of_isBareChar hc _) (ih (bare ++ [c]) hcs)

/-- What stands between single quotes is taken as it is. -/
theorem reaches_single (word : List Segment) (text : List Char) (h : '\'' ∉ cs) :
    Reaches { mode := .single text, word } cs { mode := .single (text ++ cs), word } := by
  induction cs generalizing text with
  | nil => rw [List.append_nil]; exact .refl _
  | cons c cs ih =>
    obtain ⟨hc, hcs⟩ := not_or.1 fun hor => h (List.mem_cons.2 hor)
    rw [List.append_cons]
    refine .cons ?_ (ih (text ++ [c]) hcs)
    exact if_neg (Ne.symm hc)

/-- Inside double quotes an escaped text is read as the text itself. -/
theorem reaches_double (word : List Segment) (text cs : List Char) :
    Reaches { mode := .double text, word } (Token.escapeDouble cs)
      { mode := .double (text ++ cs), word } := by
  induction cs generalizing text with
  | nil => rw [List.append_nil]; exact .refl _
  | cons c cs ih =>
    have hrest := ih (text ++ [c])
    rw [← List.append_cons] at hrest
    unfold Token.escapeDouble
    by_cases hc : (c = '\\' || c = '"') = true
    · rw [if_pos hc]
      have hescape : step { mode := .double text, word } '\\' =
          ({ mode := .doubleEscape text, word }, []) := rfl
      exact .cons hescape (.cons (if_pos hc) hrest)
    · rw [if_neg hc]
      refine .cons ?_ hrest
      simp only [Bool.or_eq_true, decide_eq_true_eq, not_or] at hc
      simp [step, hc.1, hc.2]

/-! ### Segments and words -/

/-- Without an open segment the word has the closed ones. -/
theorem segments_of_bare_eq_nil (h : s.bare = []) : s.segments = s.word := by
  rw [segments, h]
  rfl

/-- Bare characters make one more segment. -/
theorem segments_of_bare_ne_nil (h : s.bare ≠ []) :
    s.segments = s.word ++ [⟨String.ofList s.bare, .bare⟩] :=
  if_neg (by simpa using h)

/-- A quoted segment comes behind what there is. -/
theorem segments_push (s : State) (text : List Char) (quoting : Quoting) :
    (s.push text quoting).segments = s.segments ++ [⟨String.ofList text, quoting⟩] :=
  segments_of_bare_eq_nil rfl

/-- A state outside quotes, given by the segments of its open word, that is ready for any further
segment or only for one that is not bare. -/
structure Holds (s : State) (word : List Segment) : Prop where
  mode : s.mode = .plain
  segments : s.segments = word
  bare : ∀ last ∈ word.getLast?, last.quoting ≠ .bare → s.bare = []

/-- At the start there is no word. -/
theorem holds_empty : Holds {} [] :=
  ⟨rfl, rfl, fun _ h => absurd h (by simp)⟩

/-- The state after a quoted or escaped segment. -/
theorem holds_push (s : State) (text : List Char) (quoting : Quoting) :
    (s.push text quoting).Holds (s.segments ++ [⟨String.ofList text, quoting⟩]) :=
  ⟨rfl, segments_push s text quoting, fun _ _ _ => rfl⟩

/-- Reading what a segment is written as adds the segment to the open word. -/
theorem Holds.reaches_segment {segments : List Segment} (h : s.Holds segments) {segment : Segment}
    (hsegment : segment.Writable) (hbare : segment.quoting = .bare → s.bare = []) :
    ∃ s', s.Reaches segment.render s' ∧ s'.Holds (segments ++ [segment]) := by
  obtain ⟨mode, word, bare⟩ := s
  obtain ⟨text, quoting⟩ := segment
  obtain ⟨rfl, rfl, -⟩ := h
  cases quoting with
  | bare =>
    obtain rfl : bare = [] := hbare rfl
    obtain ⟨hne, hchars⟩ := hsegment
    refine ⟨_, reaches_bare word [] hchars, rfl, ?_, fun last hlast hquoting => ?_⟩
    · have htext : text.toList.isEmpty = false := by
        rw [List.isEmpty_eq_false_iff, Ne, String.toList_eq_nil_iff]
        exact hne
      show (if text.toList.isEmpty then word else _) = _
      rw [htext]
      exact congrArg (word ++ [⟨·, .bare⟩]) String.ofList_toList
    · rw [List.getLast?_concat, Option.mem_some_iff] at hlast
      exact absurd (hlast ▸ rfl) hquoting
  | single =>
    have hclosed := holds_push ⟨.single text.toList, State.segments ⟨.plain, word, bare⟩, []⟩
      text.toList .single
    rw [String.ofList_toList] at hclosed
    exact ⟨_, .cons rfl ((reaches_single _ [] hsegment).trans (.of_step rfl)), hclosed⟩
  | double =>
    have hclosed := holds_push ⟨.double text.toList, State.segments ⟨.plain, word, bare⟩, []⟩
      text.toList .double
    rw [String.ofList_toList] at hclosed
    exact ⟨_, .cons rfl ((reaches_double _ [] text.toList).trans (.of_step rfl)), hclosed⟩
  | escaped =>
    obtain ⟨c, hc⟩ := List.length_eq_one_iff.1 hsegment
    have htext : String.ofList [c] = text := by rw [← hc, String.ofList_toList]
    refine ⟨_, ?_, htext ▸ holds_push ⟨.escape, word, bare⟩ [c] .escaped⟩
    simp only [Segment.render, hc]
    exact .cons rfl (.of_step rfl)

/-- After segments that are apart from a bare one, no bare characters are open. -/
theorem Holds.bare_eq_nil {segments : List Segment} (h : s.Holds segments) {segment : Segment}
    {rest : List Segment} (hchain : (segments ++ segment :: rest).IsChain Segment.Apart)
    (hbare : segment.quoting = .bare) : s.bare = [] := by
  obtain ⟨-, -, hnext⟩ := List.isChain_append.1 hchain
  cases hlast : segments.getLast? with
  | none =>
    have hnil := h.segments
    rw [List.getLast?_eq_none_iff.1 hlast, State.segments] at hnil
    by_contra hne
    rw [if_neg (by simpa using hne)] at hnil
    exact absurd hnil (by simp)
  | some last =>
    refine h.bare last hlast fun hquoting => ?_
    exact hnext last hlast segment rfl ⟨hquoting, hbare⟩

/-- Reading what several segments are written as adds them to the open word. -/
theorem Holds.reaches_segments {segments more : List Segment} (h : s.Holds segments)
    (hmore : ∀ segment ∈ more, segment.Writable)
    (hchain : (segments ++ more).IsChain Segment.Apart) :
    ∃ s', s.Reaches (more.flatMap Segment.render) s' ∧ s'.Holds (segments ++ more) := by
  induction more generalizing s segments with
  | nil => exact ⟨s, .refl s, (List.append_nil segments).symm ▸ h⟩
  | cons segment more ih =>
    obtain ⟨hsegment, hrest⟩ := List.forall_mem_cons.1 hmore
    obtain ⟨next, hread, hnext⟩ := h.reaches_segment hsegment (h.bare_eq_nil hchain)
    rw [List.append_cons] at hchain ⊢
    obtain ⟨s', hmoreread, hs'⟩ := ih hnext hrest hchain
    exact ⟨s', hread.trans hmoreread, hs'⟩

/-! ### Tokens -/

/-- A word in which something is written is a token. -/
theorem Holds.wordToken {segments : List Segment} (h : s.Holds segments)
    (hne : ∃ segment ∈ segments, segment.text ≠ "") : s.wordToken = [.word segments] := by
  have hany : segments.any (fun segment => !segment.text.isEmpty) = true := by
    obtain ⟨segment, hmem, htext⟩ := hne
    exact List.any_eq_true.2 ⟨segment, hmem, by simpa using htext⟩
  rw [State.wordToken, h.segments, if_pos hany]

/-- After what a token is written as, a space or the end of the line completes the token. -/
theorem reaches_token {token : Token} (h : token.Writable) :
    ∃ s', Reaches {} token.render s' ∧ s'.finish = [token] ∧
      ∀ rest, s'.run (' ' :: rest) = token :: run {} rest := by
  cases token with
  | word segments =>
    obtain ⟨hne, hsegments, hchain⟩ := h
    obtain ⟨s', hread, hs'⟩ := holds_empty.reaches_segments hsegments hchain
    have hword := hs'.wordToken hne
    refine ⟨s', hread, ?_, fun rest => ?_⟩
    · rw [finish, hs'.mode]
      exact hword
    · have hstep : s'.step ' ' = ({}, s'.wordToken) := by
        rw [step, hs'.mode]
        rfl
      rw [run, hstep, hword]
      rfl
  | redirect mode =>
    cases mode with
    | read => exact ⟨_, .of_step rfl, rfl, fun _ => rfl⟩
    | overwrite => exact ⟨_, .of_step rfl, rfl, fun _ => rfl⟩
    | append => exact ⟨_, .cons rfl (.of_step rfl), rfl, fun _ => rfl⟩

/-- The token of an open word whose bare characters end in a backslash. -/
theorem wordToken_append_backslash (mode : Mode) (word : List Segment) (text : List Char) :
    wordToken ⟨mode, word, text ++ ['\\']⟩ =
      [.word (word ++ [⟨String.ofList (text ++ ['\\']), .bare⟩])] := by
  rw [wordToken, segments_of_bare_ne_nil (by simp), if_pos (by simp)]

/-- A bare segment with a backslash as its last character is read back at the end of the line. -/
theorem run_render_of_endsInBackslash {token : Token} (h : token.EndsInBackslash) :
    run {} token.render = [token] := by
  obtain ⟨segments, text, rfl, hsegments, hchain, htext⟩ := h
  have hapart := (List.isChain_append.1 hchain).1
  obtain ⟨before, hread, hbefore⟩ := holds_empty.reaches_segments hsegments hapart
  have hopen : before.bare = [] := hbefore.bare_eq_nil hchain rfl
  obtain ⟨mode, word, bare⟩ := before
  obtain ⟨rfl, hword, -⟩ := hbefore
  obtain rfl : bare = [] := hopen
  obtain rfl : word = segments := hword
  have hlast : Reaches ⟨.plain, word, []⟩ (text ++ ['\\']) ⟨.escape, word, text⟩ :=
    (reaches_bare word [] htext).trans (.of_step rfl)
  have hrender : Token.render (.word (word ++ [⟨String.ofList (text ++ ['\\']), .bare⟩])) =
      word.flatMap Segment.render ++ (text ++ ['\\']) := by
    simp [Token.render, Segment.render, List.flatMap_append]
  rw [hrender, (hread.trans hlast).run_eq]
  exact wordToken_append_backslash .escape word text

/-- Tokens that are written with blanks between them are scanned one after the other, by induction
on those before the last. -/
theorem run_renderAll {before : List Token} {last : Token}
    (h : ∀ token ∈ before, token.Writable) (hlast : run {} last.render = [last]) :
    run {} ([' '].intercalate ((before ++ [last]).map Token.render)) = before ++ [last] := by
  induction before with
  | nil => simpa using hlast
  | cons token before ih =>
    obtain ⟨htoken, hbefore⟩ := List.forall_mem_cons.1 h
    obtain ⟨s', hread, -, hspace⟩ := reaches_token htoken
    obtain ⟨next, rest, hnext⟩ : ∃ next rest, (before ++ [last]).map Token.render = next :: rest :=
      List.exists_cons_of_ne_nil (by simp)
    have hrest := ih hbefore
    rw [hnext] at hrest
    rw [List.cons_append, List.map_cons, hnext, List.intercalate_cons_cons, List.append_assoc,
      hread, List.singleton_append, hspace, hrest]

/-! ### What the scanner gives up -/

/-- Is the scanner outside quotes and operators, where bare characters can be open? -/
def Outside (s : State) : Prop :=
  s.mode = .plain ∨ s.mode = .escape

/-- What every character keeps true: the segments of the open word are writable and apart, and bare
characters are open outside quotes only, where they do not follow a bare segment. -/
structure Sound (s : State) : Prop where
  word : ∀ segment ∈ s.word, segment.Writable
  apart : s.word.IsChain Segment.Apart
  bare : ∀ c ∈ s.bare, IsBareChar c
  outside : s.Outside → ∀ last ∈ s.word.getLast?, last.quoting ≠ .bare
  inside : ¬s.Outside → s.bare = []
  single : ∀ text, s.mode = .single text → '\'' ∉ text

/-- At the start there is nothing to be sound. -/
theorem sound_empty : Sound {} :=
  ⟨fun _ h => absurd h List.not_mem_nil, .nil, fun _ h => absurd h List.not_mem_nil,
    fun _ _ h => absurd h (by simp), fun _ => rfl, fun _ h => absurd h (by simp)⟩

/-- The segments of a sound state can be written. -/
theorem Sound.writable_segments (h : s.Sound) : ∀ segment ∈ s.segments, segment.Writable := by
  by_cases hbare : s.bare = []
  · rw [segments_of_bare_eq_nil hbare]
    exact h.word
  · rw [segments_of_bare_ne_nil hbare]
    refine List.forall_mem_append.2 ⟨h.word, List.forall_mem_singleton.2 ⟨?_, ?_⟩⟩
    · simpa [String.ext_iff] using hbare
    · rw [String.toList_ofList]
      exact h.bare

/-- No two bare segments of a sound state are next to each other. -/
theorem Sound.apart_segments (h : s.Sound) : s.segments.IsChain Segment.Apart := by
  by_cases hbare : s.bare = []
  · rw [segments_of_bare_eq_nil hbare]
    exact h.apart
  · have houtside : s.Outside := by
      by_contra hinside
      exact hbare (h.inside hinside)
    rw [segments_of_bare_ne_nil hbare]
    refine List.isChain_append.2 ⟨h.apart, .singleton _, fun last hlast _ _ hboth => ?_⟩
    exact h.outside houtside last hlast hboth.1

/-- Inside quotes the segments of the open word are finished. -/
theorem Sound.quote (h : s.Sound) {mode : Mode} (hmode : mode ≠ .plain ∧ mode ≠ .escape)
    (hsingle : ∀ text, mode = .single text → '\'' ∉ text) :
    Sound { mode, word := s.segments } :=
  ⟨h.writable_segments, h.apart_segments, fun _ hc => absurd hc List.not_mem_nil,
    fun hor => absurd hor (not_or.2 hmode), fun _ => rfl, hsingle⟩

/-- What stands between quotes does not concern the word. -/
theorem Sound.within (h : s.Sound) (hinside : ¬s.Outside) {mode : Mode}
    (hmode : mode ≠ .plain ∧ mode ≠ .escape)
    (hsingle : ∀ text, mode = .single text → '\'' ∉ text) : Sound { s with mode } :=
  ⟨h.word, h.apart, h.bare, fun hor => absurd hor (not_or.2 hmode), fun _ => h.inside hinside,
    hsingle⟩

/-- A quoted segment keeps a state sound. -/
theorem Sound.push (h : s.Sound) {text : List Char} {quoting : Quoting} (hquoting : quoting ≠ .bare)
    (hwritable : Segment.Writable ⟨String.ofList text, quoting⟩) : (s.push text quoting).Sound := by
  refine ⟨List.forall_mem_append.2 ⟨h.writable_segments, List.forall_mem_singleton.2 hwritable⟩,
    ?_, fun _ hc => absurd hc List.not_mem_nil, fun _ last hlast => ?_, fun _ => rfl,
    fun _ hmode => absurd hmode (by simp [State.push])⟩
  · refine List.isChain_append.2 ⟨h.apart_segments, .singleton _, fun _ _ last hlast hboth => ?_⟩
    rw [List.head?_singleton, Option.mem_some_iff] at hlast
    subst hlast
    exact hquoting hboth.2
  · rw [State.push, List.getLast?_concat, Option.mem_some_iff] at hlast
    exact hlast ▸ hquoting

/-- The word of a sound state can be written. -/
theorem Sound.wordToken (h : s.Sound) : ∀ token ∈ s.wordToken, token.Writable := by
  intro token htoken
  unfold State.wordToken at htoken
  by_cases hany : (s.segments.any fun segment => !segment.text.isEmpty) = true
  · rw [if_pos hany, List.mem_singleton] at htoken
    subst htoken
    obtain ⟨segment, hmem, htext⟩ := List.any_eq_true.1 hany
    exact ⟨⟨segment, hmem, by simpa using htext⟩, h.writable_segments, h.apart_segments⟩
  · rw [if_neg hany] at htoken
    exact absurd htoken List.not_mem_nil

/-- A step keeps the state sound and gives up writable tokens. -/
def StepsSoundly (next : State × List Token) : Prop :=
  next.1.Sound ∧ ∀ token ∈ next.2, token.Writable

/-- A sound state with no token. -/
theorem StepsSoundly.of_sound (h : s.Sound) : StepsSoundly (s, []) :=
  ⟨h, fun _ ht => absurd ht List.not_mem_nil⟩

/-- A character outside quotes leads from a sound state to a sound one, and its tokens can be
written. -/
theorem Sound.stepPlain (h : s.Sound) (hmode : s.mode = .plain) (c : Char) :
    StepsSoundly (s.stepPlain c) := by
  unfold State.stepPlain
  -- A blank or an angle bracket ends the word; a quote or a backslash ends the bare characters
  -- before it; any other character is one of them.
  by_cases hblank : Text.isBlank c = true
  · rw [if_pos hblank]
    exact ⟨sound_empty, h.wordToken⟩
  rw [if_neg hblank]
  by_cases hsingle : c = '\''
  · rw [if_pos hsingle]
    refine .of_sound (h.quote (by simp) fun text htext => ?_)
    rw [← Mode.single.inj htext]
    exact List.not_mem_nil
  rw [if_neg hsingle]
  by_cases hdouble : c = '"'
  · rw [if_pos hdouble]
    exact .of_sound (h.quote (by simp) (by simp))
  rw [if_neg hdouble]
  by_cases hbackslash : c = '\\'
  · rw [if_pos hbackslash]
    refine .of_sound ⟨h.word, h.apart, h.bare, fun _ => h.outside (.inl hmode), fun hinside => ?_,
      fun _ hescape => absurd hescape (by simp)⟩
    exact absurd (.inr rfl) hinside
  rw [if_neg hbackslash]
  by_cases hgreater : c = '>'
  · rw [if_pos hgreater]
    exact ⟨sound_empty.quote (by simp) (by simp), h.wordToken⟩
  rw [if_neg hgreater]
  by_cases hless : c = '<'
  · rw [if_pos hless]
    exact ⟨sound_empty.quote (by simp) (by simp), h.wordToken⟩
  rw [if_neg hless]
  refine .of_sound ⟨h.word, h.apart, ?_, fun _ => h.outside (.inl hmode), fun hinside => ?_,
    fun _ hplain => absurd hplain (by simp)⟩
  · refine List.forall_mem_append.2 ⟨h.bare, List.forall_mem_singleton.2 ?_⟩
    exact ⟨by simpa using hblank, hsingle, hdouble, hbackslash, hgreater, hless⟩
  · exact absurd (.inl rfl) hinside

/-- One character: by what it stands inside of. -/
theorem Sound.step (h : s.Sound) (c : Char) : StepsSoundly (s.step c) := by
  obtain ⟨mode, word, bare⟩ := s
  cases mode with
  | plain => exact h.stepPlain rfl c
  | escape => exact .of_sound (h.push (by simp) (by simp [Segment.Writable]))
  | single text =>
    have hinside : ¬Outside ⟨.single text, word, bare⟩ := by simp [Outside]
    have htext : '\'' ∉ text := h.single text rfl
    unfold State.step
    by_cases hc : c = '\''
    · simp only [if_pos hc]
      exact .of_sound (h.push (by simp) (by simpa [Segment.Writable] using htext))
    · simp only [if_neg hc]
      refine .of_sound (h.within hinside (by simp) fun after hafter => ?_)
      rw [← Mode.single.inj hafter]
      simpa [htext] using Ne.symm hc
  | double text =>
    have hinside : ¬Outside ⟨.double text, word, bare⟩ := by simp [Outside]
    unfold State.step
    by_cases hc : c = '"'
    · simp only [if_pos hc]
      exact .of_sound (h.push (by simp) trivial)
    simp only [if_neg hc]
    by_cases hbackslash : c = '\\'
    · simp only [if_pos hbackslash]
      exact .of_sound (h.within hinside (by simp) (by simp))
    · simp only [if_neg hbackslash]
      exact .of_sound (h.within hinside (by simp) (by simp))
  | doubleEscape text =>
    have hinside : ¬Outside ⟨.doubleEscape text, word, bare⟩ := by simp [Outside]
    unfold State.step
    by_cases hc : (c = '\\' || c = '"') = true
    · simp only [if_pos hc]
      exact .of_sound (h.within hinside (by simp) (by simp))
    · simp only [if_neg hc]
      exact .of_sound (h.within hinside (by simp) (by simp))
  | angle bracket mode =>
    have hinside : ¬Outside ⟨.angle bracket mode, word, bare⟩ := by simp [Outside]
    unfold State.step
    by_cases hc : c = bracket
    · simp only [if_pos hc]
      exact .of_sound (h.within hinside (by simp) (by simp))
    · simp only [if_neg hc]
      -- a single bracket is a token by itself, and the character is read again outside
      obtain ⟨hafter, htokens⟩ := sound_empty.stepPlain rfl c
      exact ⟨hafter, List.forall_mem_cons.2 ⟨trivial, htokens⟩⟩

/-- The end of the line: only after a lone backslash is the last token not writable. -/
theorem Sound.finish (h : s.Sound) : Token.WritableAtEnd s.finish := by
  obtain ⟨mode, word, bare⟩ := s
  cases mode with
  | plain => exact .inl h.wordToken
  | escape =>
    refine .inr ⟨[], .word (word ++ [⟨String.ofList (bare ++ ['\\']), .bare⟩]), ?_,
      fun _ ht => absurd ht List.not_mem_nil, word, bare, rfl, h.word, ?_, h.bare⟩
    · exact wordToken_append_backslash .escape word bare
    · refine List.isChain_append.2 ⟨h.apart, .singleton _, fun last hlast _ _ hboth => ?_⟩
      exact h.outside (.inr rfl) last hlast hboth.1
  | single text =>
    have hwritable : Segment.Writable ⟨String.ofList text, .single⟩ := by
      simpa [Segment.Writable] using h.single text rfl
    exact .inl (h.push (by simp) hwritable).wordToken
  | double text =>
    have hpushed : (State.push ⟨.double text, word, bare⟩ text .double).Sound :=
      h.push (by simp) trivial
    exact .inl hpushed.wordToken
  | doubleEscape text =>
    have hpushed : (State.push ⟨.doubleEscape text, word, bare⟩ (text ++ ['\\']) .double).Sound :=
      h.push (by simp) trivial
    exact .inl hpushed.wordToken
  | angle bracket mode => exact .inl (List.forall_mem_singleton.2 trivial)

/-- Every line. -/
theorem Sound.run (h : s.Sound) (cs : List Char) : Token.WritableAtEnd (s.run cs) := by
  induction cs generalizing s with
  | nil => exact h.finish
  | cons c cs ih =>
    obtain ⟨hafter, htokens⟩ := h.step c
    exact .append htokens (ih hafter)

end Scanner.State

namespace Token

/-- Tokens that are writable up to the end of the line are read back from what they are written
as. -/
theorem WritableAtEnd.scan_renderAll {tokens : List Token} (h : WritableAtEnd tokens) :
    scan (renderAll tokens) = tokens := by
  rw [scan, renderAll, String.toList_ofList]
  rcases h with hall | ⟨before, last, rfl, hbefore, hlast⟩
  · rcases List.eq_nil_or_concat tokens with rfl | ⟨before, last, rfl⟩
    · rfl
    · rw [List.concat_eq_append] at hall ⊢
      obtain ⟨hbefore, hlast⟩ := List.forall_mem_append.1 hall
      obtain ⟨_, hread, hfinish, -⟩ :=
        Scanner.State.reaches_token (List.forall_mem_singleton.1 hlast)
      exact Scanner.State.run_renderAll hbefore (hread.run_eq.trans hfinish)
  · exact Scanner.State.run_renderAll hbefore (Scanner.State.run_render_of_endsInBackslash hlast)

/-- The tokens of a line are writable up to its end. -/
theorem writableAtEnd_scan (line : String) : WritableAtEnd (scan line) :=
  Scanner.State.sound_empty.run line.toList

/-- Writable tokens are the tokens of the line that they are written as.  Conversely the tokens of
any line are writable, except that the last bare segment may end in a backslash, and they are the
tokens of the line that they are written as. -/
theorem scan_rendered (tokens : List Token) (line : String) :
    ((∀ token ∈ tokens, token.Writable) → scan (renderAll tokens) = tokens) ∧
      WritableAtEnd (scan line) ∧ scan (renderAll (scan line)) = scan line :=
  ⟨fun h => WritableAtEnd.scan_renderAll (.inl h), writableAtEnd_scan line,
    (writableAtEnd_scan line).scan_renderAll⟩

/-- Every way to write a segment, one next to the other, then two operators in a row and a word with
an empty segment. -/
theorem scan_rendered_mixed :
    let tokens := [.word [⟨"a=", .bare⟩, ⟨"b c", .single⟩, ⟨"\"\\", .double⟩, ⟨" ", .escaped⟩],
      .redirect .append, .redirect .read, .word [⟨"", .single⟩, ⟨"y", .bare⟩]]
    (∀ token ∈ tokens, token.Writable) ∧ scan (renderAll tokens) = tokens :=
  ⟨by decide, (scan_rendered _ "").1 (by decide)⟩

end Token

end MountShell
