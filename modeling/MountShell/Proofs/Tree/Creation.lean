import Mathlib.Data.List.Basic
import Mathlib.Data.List.TakeWhile
import MountShell.Proofs.Tree.Change
import MountShell.Proofs.Tree.Handle

/-!
# Creating and opening by a path as it is written

A path may hold repeated slashes, dots and slashes at its end.  Creating a node cuts the last name
off the text (`Path.Parts`), while a walk takes the text to pieces; both read the path in the same
way, so that the new node is found where it was put.

Main statement: `Tree.create_openFile_exact`, when a node is created and what that changes, and what
opening does in each case.
-/

namespace MountShell

namespace Path

/-! ### The last name of a path -/

/-- A path as it is written: what stands before the last name, the name, and slashes that do not
count.  What stands before the name is nothing or ends in a slash; a path of nothing but slashes has
the empty name, and nothing before it. -/
structure Parts (path before name : String) : Prop where
  text : ∃ slashes : List Char, (∀ c ∈ slashes, c = '/') ∧
    path.toList = before.toList ++ name.toList ++ slashes
  slashless : '/' ∉ name.toList
  joint : before = "" ∨ ∃ front : List Char, before.toList = front ++ ['/']
  bare : name = "" → before = ""

theorem walkSteps_of_slash {path : String} {front rest : List Char}
    (h : path.toList = front ++ '/' :: rest) :
    walkSteps path = walkSteps (String.ofList front) ++ walkSteps (String.ofList rest) := by
  unfold walkSteps Text.split
  rw [h, Text.splitChars_append_cons, List.map_append, List.filter_append, String.toList_ofList,
    String.toList_ofList]

theorem walkSteps_slashes {slashes : List Char} (h : ∀ c ∈ slashes, c = '/') :
    walkSteps (String.ofList slashes) = [] := by
  induction slashes with
  | nil => rfl
  | cons c rest ih =>
    obtain rfl : c = '/' := h c List.mem_cons_self
    have hcut : (String.ofList ('/' :: rest)).toList = [] ++ '/' :: rest := String.toList_ofList
    rw [walkSteps_of_slash hcut, ih fun c hc => h c (List.mem_cons_of_mem _ hc)]
    rfl

/-- Slashes at the end of a path add no steps. -/
theorem walkSteps_append_slashes {path : String} {text slashes : List Char}
    (hpath : path.toList = text ++ slashes) (h : ∀ c ∈ slashes, c = '/') :
    walkSteps path = walkSteps (String.ofList text) := by
  cases slashes with
  | nil =>
    rw [List.append_nil] at hpath
    rw [← hpath, String.ofList_toList]
  | cons c rest =>
    obtain rfl : c = '/' := h c List.mem_cons_self
    rw [walkSteps_of_slash hpath, walkSteps_slashes fun c hc => h c (List.mem_cons_of_mem _ hc),
      List.append_nil]

theorem walkSteps_name {name : String} (hslash : '/' ∉ name.toList) (hempty : name ≠ "")
    (hdot : name ≠ ".") : walkSteps name = [name] := by
  unfold walkSteps Text.split
  rw [Text.splitChars_of_not_mem hslash]
  simp [hempty, hdot]

/-- What stands before the name are the steps before it. -/
theorem Parts.walkSteps_eq {path before name : String} (h : Parts path before name)
    (hempty : name ≠ "") (hdot : name ≠ ".") : walkSteps path = walkSteps before ++ [name] := by
  obtain ⟨slashes, hslashes, htext⟩ := h.text
  rw [walkSteps_append_slashes htext hslashes]
  rcases h.joint with rfl | ⟨front, hfront⟩
  · have hname : String.ofList ("".toList ++ name.toList) = name := by simp
    rw [hname, walkSteps_name h.slashless hempty hdot]
    rfl
  · have hcut : (String.ofList (before.toList ++ name.toList)).toList =
        front ++ '/' :: name.toList := by
      rw [String.toList_ofList, hfront, List.append_assoc, List.singleton_append]
    have hbefore : walkSteps before = walkSteps (String.ofList front) :=
      walkSteps_append_slashes hfront fun c hc => List.mem_singleton.1 hc
    have hname := walkSteps_name h.slashless hempty hdot
    rw [walkSteps_of_slash hcut, String.ofList_toList, hname, hbefore]

/-- A path is its text without the slashes at the end, and these. -/
theorem exists_trimSlashes (path : String) : ∃ slashes : List Char, (∀ c ∈ slashes, c = '/') ∧
    path.toList = (trimSlashes path).toList ++ slashes ∧
    ∀ front : List Char, (trimSlashes path).toList ≠ front ++ ['/'] := by
  refine ⟨(path.toList.reverse.takeWhile (· = '/')).reverse, fun c hc => ?_, ?_, fun front h => ?_⟩
  · have hslash := List.mem_takeWhile_imp (List.mem_reverse.1 hc)
    exact of_decide_eq_true hslash
  · rw [trimSlashes, String.toList_ofList, ← List.reverse_append, List.takeWhile_append_dropWhile,
      List.reverse_reverse]
  · rw [trimSlashes, String.toList_ofList, List.reverse_eq_append_iff] at h
    have hhead := List.head?_dropWhile_not (fun c : Char => decide (c = '/')) path.toList.reverse
    rw [h] at hhead
    simp at hhead

/-- The text without slashes at the end is what stands before the name, and the name. -/
theorem Parts.toList_trimSlashes {path before name : String} (h : Parts path before name) :
    (trimSlashes path).toList = before.toList ++ name.toList := by
  obtain ⟨slashes, hslashes, htext⟩ := h.text
  have hend : ∀ front : List Char, before.toList ++ name.toList ≠ front ++ ['/'] := by
    intro front heq
    rcases List.eq_nil_or_concat' name.toList with hnil | ⟨init, last, hlast⟩
    · have hempty : name = "" := String.toList_eq_nil_iff.1 hnil
      rw [hnil, h.bare hempty] at heq
      exact absurd heq (by simp)
    · rw [hlast, ← List.append_assoc] at heq
      obtain ⟨-, hslash⟩ := List.append_inj' heq rfl
      refine h.slashless ?_
      rw [hlast, List.singleton_inj.1 hslash]
      exact List.mem_append_right _ List.mem_cons_self
  unfold trimSlashes
  have hdrop : (slashes.reverse).dropWhile (· = '/') = [] := by
    rw [List.dropWhile_eq_nil_iff]
    intro c hc
    exact decide_eq_true (hslashes c (List.mem_reverse.1 hc))
  rw [String.toList_ofList, htext, List.reverse_append, List.dropWhile_append, hdrop]
  simp only [List.isEmpty_nil, if_true]
  rcases List.eq_nil_or_concat' (before.toList ++ name.toList) with hnil | ⟨init, last, hlast⟩
  · rw [hnil]
    rfl
  · have hne : last ≠ '/' := by
      rintro rfl
      exact hend init hlast
    rw [hlast]
    simp [hne]

/-- Cutting the name off gives the name, and a parent with the steps before it. -/
theorem Parts.splitParent_eq {path before name : String} (h : Parts path before name) :
    (splitParent path).2 = name ∧ walkSteps (splitParent path).1 = walkSteps before := by
  have htrim := h.toList_trimSlashes
  unfold splitParent Text.splitLast
  simp only []
  rcases h.joint with rfl | ⟨front, hfront⟩
  · -- there is no slash to cut at
    have hname : trimSlashes path = name := String.toList_inj.1 (by simpa using htrim)
    have hnone : Text.splitLastChars '/' (trimSlashes path).toList = none := by
      rw [Option.eq_none_iff_forall_not_mem]
      rintro ⟨first, last⟩ hcut
      obtain ⟨hcut, -⟩ := Text.splitLastChars_eq_some_iff.1 hcut
      rw [hname] at hcut
      refine h.slashless ?_
      rw [hcut]
      exact List.mem_append_right _ List.mem_cons_self
    rw [hname] at hnone
    simp only [hname, hnone, Option.map_none, true_and]
    rfl
  · have hsome : Text.splitLastChars '/' (trimSlashes path).toList = some (front, name.toList) := by
      refine Text.splitLastChars_eq_some_iff.2 ⟨?_, h.slashless⟩
      rw [htrim, hfront, List.append_assoc, List.singleton_append]
    have hbefore : walkSteps before = walkSteps (String.ofList front) :=
      walkSteps_append_slashes hfront fun c hc => List.mem_singleton.1 hc
    rw [hsome]
    simp only [Option.map_some, String.ofList_toList, true_and]
    rw [hbefore]
    by_cases hempty : String.ofList front = ""
    · rw [if_pos hempty, hempty]
      rfl
    · rw [if_neg hempty]

/-- Every path has a last name, which may be empty. -/
theorem exists_parts (path : String) : ∃ before name, Parts path before name := by
  obtain ⟨slashes, hslashes, htext, hend⟩ := exists_trimSlashes path
  cases hcut : Text.splitLastChars '/' (trimSlashes path).toList with
  | none =>
    refine ⟨"", trimSlashes path, ⟨slashes, hslashes, by simpa using htext⟩, ?_, Or.inl rfl,
      fun _ => rfl⟩
    intro hmem
    obtain ⟨last, front, hlast, hnot⟩ := List.eq_append_cons_of_mem (List.mem_reverse.2 hmem)
    have hsplit : (trimSlashes path).toList = front.reverse ++ '/' :: last.reverse := by
      rw [← List.reverse_reverse (trimSlashes path).toList, hlast]
      simp
    have hrest : '/' ∉ last.reverse := fun h => hnot (List.mem_reverse.1 h)
    exact absurd (Text.splitLastChars_eq_some_iff.2 ⟨hsplit, hrest⟩) (by simp [hcut])
  | some cut =>
    obtain ⟨front, name⟩ := cut
    obtain ⟨hsplit, hname⟩ := Text.splitLastChars_eq_some_iff.1 hcut
    refine ⟨String.ofList (front ++ ['/']), String.ofList name, ⟨slashes, hslashes, ?_⟩, ?_,
      Or.inr ⟨front, String.toList_ofList⟩, ?_⟩
    · rw [htext, hsplit, String.toList_ofList, String.toList_ofList]
      simp
    · rwa [String.toList_ofList]
    · intro hempty
      have hnil : name = [] := by simpa using congrArg String.toList hempty
      exact absurd (hnil ▸ hsplit) (hend front)

end Path

namespace Node

/-! ### A tree with one more node -/

/-- The tree `after` is `root` with the node `new` under a name of a writeable directory that had no
child of that name; apart from that it shows what it showed. -/
structure Adds (root : Node) (parent : List String) (name : String) (new after : Node) : Prop where
  added : ∀ rest, after.at? (parent ++ name :: rest) = new.at? rest
  listed : ∃ own, name ∉ own ∧ (root.at? parent).map face = some ⟨true, .directory own⟩ ∧
    (after.at? parent).map face = some ⟨true, .directory (insertName name own)⟩
  others : ∀ names, names ≠ parent → ¬ parent ++ [name] <+: names →
    (after.at? names).map face = (root.at? names).map face

/-- A new child stands under its name. -/
theorem at?_addChild_cons (name : String) (new : Node) (w : Bool)
    (children : List (String × Node)) (first : String) (rest : List String) :
    (addChild name new (directory w children)).at? (first :: rest) =
      if name = first then new.at? rest else (directory w children).at? (first :: rest) := by
  have hchild : (addChild name new (directory w children)).child? first =
      NameMap.find? first (NameMap.insert name new children) := rfl
  rw [at?_cons, at?_cons, hchild, NameMap.find?_insert]
  by_cases h : name = first
  · rw [if_pos h, if_pos h, Option.bind_some]
  · rw [if_neg h, if_neg h]
    rfl

theorem adds_update {root : Node} {parent : List String} {name : String}
    {children : List (String × Node)} (h : root.at? parent = some (.directory true children))
    (hnone : NameMap.find? name children = none) (new : Node) :
    root.Adds parent name new (root.update (addChild name new) parent) where
  added rest := by
    rw [at?_update_append _ h, at?_addChild_cons, if_pos rfl]
  listed := by
    refine ⟨NameMap.names children, fun hmem => ?_, by rw [h]; rfl, ?_⟩
    · rw [← NameMap.contains_iff_mem_names, NameMap.contains, hnone] at hmem
      exact absurd hmem (by simp)
    · rw [at?_update _ h, addChild, Option.map_some, face_directory, NameMap.names_insert]
  others names hparent hbelow := by
    by_cases hprefix : parent <+: names
    · obtain ⟨rest, rfl⟩ := hprefix
      cases rest with
      | nil => exact absurd (List.append_nil parent) hparent
      | cons first rest =>
        have hfirst : name ≠ first := by
          rintro rfl
          exact hbelow ⟨rest, by simp⟩
        rw [at?_update_append _ h, at?_addChild_cons, if_neg hfirst, at?_append, h,
          Option.bind_some]
    · exact face_at?_update _ hprefix

end Node

namespace Tree

/-! ### What creating and opening do -/

/-- A walk to a child that is not there ends without a node. -/
theorem follow_of_missing (path : String) {node : Node} {names : List String} {name : String}
    {w : Bool} {children : List (String × Node)}
    (h : node.at? names = some (.directory w children)) (hnone : NameMap.find? name children = none)
    (walked : List String) :
    follow path node walked (names ++ [name]) = .error (.notFound path) := by
  induction names generalizing node walked with
  | nil =>
    rw [Node.at?_nil] at h
    obtain rfl : node = .directory w children := Option.some.inj h
    rw [List.nil_append, follow, hnone]
  | cons first names ih =>
    obtain ⟨flag, own, child, rfl, hchild, hrest⟩ := Node.exists_of_at?_cons h
    rw [List.cons_append, follow, hchild]
    exact ih hrest _

/-- A node can be created at the path: its last name can be that of a child, and what stands before
leads to a writeable directory without a child of that name. -/
def Creatable (root : Node) (path : String) : Prop :=
  ∃ before name children, Path.Parts path before name ∧ name ≠ "" ∧ name ≠ "." ∧ name ≠ ".." ∧
    walk root before = .ok (.directory true children) ∧ NameMap.find? name children = none

variable {root : Node} {path : String}

/-- What creating a node needs, and what it makes of the tree. -/
theorem create_eq_ok_iff_parts (new after : Node) :
    create root path new = .ok after ↔
      ∃ before name children, Path.Parts path before name ∧ name ≠ "" ∧ name ≠ "." ∧ name ≠ ".." ∧
        walk root before = .ok (.directory true children) ∧ NameMap.find? name children = none ∧
        after = root.update (Node.addChild name new) (Path.walkSteps before) := by
  obtain ⟨before, name, hparts⟩ := Path.exists_parts path
  have hsplit : ∀ before name, Path.Parts path before name → ∃ parent,
      Path.splitParent path = (parent, name) ∧ Path.walkSteps parent = Path.walkSteps before := by
    intro before name hparts
    obtain ⟨hname, hsteps⟩ := hparts.splitParent_eq
    refine ⟨(Path.splitParent path).1, ?_, hsteps⟩
    rw [← hname]
  rw [create_eq_ok_iff]
  simp only [walk_eq_ok_iff, not_or]
  constructor
  · rintro ⟨parent, other, children, hparent, ⟨hempty, hdot, hup⟩, hat, hnone, rfl⟩
    obtain ⟨own, hown, hsteps⟩ := hsplit before name hparts
    obtain ⟨rfl, rfl⟩ := Prod.mk.inj (hparent.symm.trans hown)
    rw [hsteps] at hat ⊢
    exact ⟨before, other, children, hparts, hempty, hdot, hup, hat, hnone, rfl⟩
  · rintro ⟨before, name, children, hparts, hempty, hdot, hup, hat, hnone, rfl⟩
    obtain ⟨parent, hparent, hsteps⟩ := hsplit before name hparts
    rw [← hsteps] at hat ⊢
    exact ⟨parent, name, children, hparent, ⟨hempty, hdot, hup⟩, hat, hnone, rfl⟩

/-- A node can be created whatever it is, as soon as the path allows it. -/
theorem exists_create_iff (new : Node) :
    (∃ after, create root path new = .ok after) ↔ Creatable root path := by
  simp only [create_eq_ok_iff_parts]
  constructor
  · rintro ⟨_, before, name, children, hparts, hempty, hdot, hup, hwalk, hnone, -⟩
    exact ⟨before, name, children, hparts, hempty, hdot, hup, hwalk, hnone⟩
  · rintro ⟨before, name, children, hparts, hempty, hdot, hup, hwalk, hnone⟩
    exact ⟨_, before, name, children, hparts, hempty, hdot, hup, hwalk, hnone, rfl⟩

/-- Where a node can be created there is none. -/
theorem Creatable.walk_eq (h : Creatable root path) :
    walk root path = .error (.notFound path) := by
  obtain ⟨before, name, children, hparts, hempty, hdot, -, hwalk, hnone⟩ := h
  rw [walk, hparts.walkSteps_eq hempty hdot]
  exact follow_of_missing path ((walk_eq_ok_iff root _ before).1 hwalk) hnone []

/-- The new node is found, and nothing else is changed. -/
theorem adds_create {new after : Node} (h : create root path new = .ok after) :
    walk after path = .ok new ∧ ∃ before name, Path.Parts path before name ∧
      root.Adds (Path.walkSteps before) name new after := by
  obtain ⟨before, name, children, hparts, hempty, hdot, -, hwalk, hnone, rfl⟩ :=
    (create_eq_ok_iff_parts new after).1 h
  have hadds := Node.adds_update ((walk_eq_ok_iff root _ before).1 hwalk) hnone new
  refine ⟨(walk_eq_ok_iff _ new path).2 ?_, before, name, hparts, hadds⟩
  rw [hparts.walkSteps_eq hempty hdot, hadds.added, Node.at?_nil]

end Tree

/-- The handle is not closed, no failure stands against it, and it is bound to the node. -/
structure FileHandle.WorksOn (h : FileHandle) (root node : Node) : Prop where
  unclosed : h.closed = false
  unfailed : h.errorMessage = none
  bound : h.node? root = some node

theorem FileHandle.worksOn_ofNode {root node : Node} {path : String}
    (h : Tree.walk root path = .ok node) (mode : OpenMode) :
    (FileHandle.ofNode (Path.walkSteps path) path mode).WorksOn root node :=
  ⟨rfl, rfl, (Tree.walk_eq_ok_iff root node path).1 h⟩

namespace Tree

/-- For every tree and every path, however it is written: a node is created just when the last name
can be that of a child and the rest leads to a writeable directory without such a child; it is found
at the path then, and the tree shows one node more and nothing else.  Opening, in any mode,

* gives a handle on the node at the path, if there is one, and changes nothing;
* where a file can be created, which is where nothing is found, creates an empty one, and gives a
  handle on it;
* gives a closed handle that tells that permission is denied in all other cases, and changes
  nothing. -/
theorem create_openFile_exact (root : Node) (path : String) :
    (∀ new, (∃ after, create root path new = .ok after) ↔ Creatable root path) ∧
    (∀ new after, create root path new = .ok after → walk after path = .ok new ∧
      ∃ before name, Path.Parts path before name ∧
        root.Adds (Path.walkSteps before) name new after) ∧
    ∀ mode,
      (∀ node, walk root path = .ok node → ∃ h, openFile root path mode = (h, none) ∧
        h.path = path ∧ h.mode = mode ∧ h.WorksOn root node) ∧
      (Creatable root path → walk root path = .error (.notFound path) ∧
        ∃ h after, create root path .emptyFile = .ok after ∧
          openFile root path mode = (h, some after) ∧
          h.path = path ∧ h.mode = mode ∧ h.WorksOn after .emptyFile) ∧
      ((∀ node, walk root path ≠ .ok node) → ¬ Creatable root path →
        openFile root path mode =
          (.failed path (.permissionDenied (Path.basename path)), none)) := by
  refine ⟨exists_create_iff, fun new after => adds_create, fun mode => ⟨?_, ?_, ?_⟩⟩
  · intro node hwalk
    refine ⟨_, ?_, rfl, rfl, FileHandle.worksOn_ofNode hwalk mode⟩
    simp only [openFile, hwalk]
  · intro hcreatable
    have hwalk := hcreatable.walk_eq
    obtain ⟨after, hcreate⟩ := (exists_create_iff .emptyFile).2 hcreatable
    have hnew := (adds_create hcreate).1
    refine ⟨hwalk, _, after, hcreate, ?_, rfl, rfl, FileHandle.worksOn_ofNode hnew mode⟩
    exact (openFile_eq_some_iff root after path mode _).2 ⟨rfl, ⟨path, hwalk⟩, hcreate⟩
  · intro hmissing hnot
    have hrefused : ∀ after, create root path .emptyFile ≠ .ok after := fun after hcreate =>
      hnot ((exists_create_iff .emptyFile).1 ⟨after, hcreate⟩)
    unfold openFile
    cases hwalk : walk root path with
    | ok node => exact absurd hwalk (hmissing node)
    | error e =>
      cases e with
      | notFound missing =>
        cases hcreate : create root path .emptyFile with
        | ok after => exact absurd hcreate (hrefused after)
        | error reason => rfl
      | _ => rfl

end Tree

end MountShell
