import MyIp.Foundations.CText

/-! # Paths

A path is a text, its components are what stands between slashes. `resolve` follows the components
from a directory on, the way the system does when no component is a symbolic link. A path is
`Below` a directory when it is the directory's name followed by components none of which goes up;
`Below.resolve` says that it then cannot name anything outside. -/

namespace Paths
set_option autoImplicit false

open CText

def up : Text := ['.', '.']

def components (path : Text) : List Text := path.splitOn '/'

theorem components_append (p q : Text) :
    components (p ++ '/' :: q) = components p ++ components q :=
  List.splitOn_append_cons_self p q

/-- The first component is where the path starts, the others are further on. -/
theorem components_infix (p : Text) :
    ∃ c cs, components p = c :: cs ∧ c <+: p ∧ ∀ d ∈ cs, d <:+: p := by
  induction p with
  | nil => exact ⟨[], [], rfl, List.nil_prefix, by simp⟩
  | cons x p ih =>
    obtain ⟨c, cs, he, hc, hcs⟩ := ih
    have hcons := List.splitOn_cons_eq_if_modifyHead (a := '/') x p
    rw [components] at he
    rw [he] at hcons
    by_cases hx : x = '/'
    · rw [if_pos (by simpa using hx)] at hcons
      refine ⟨[], c :: cs, hcons, List.nil_prefix, ?_⟩
      intro d hd
      refine List.IsInfix.trans ?_ (List.suffix_cons x p).isInfix
      rcases List.mem_cons.mp hd with rfl | hd
      · exact hc.isInfix
      · exact hcs d hd
    · rw [if_neg (by simpa using hx), List.modifyHead_cons] at hcons
      refine ⟨x :: c, cs, hcons, List.cons_prefix_cons.mpr ⟨rfl, hc⟩, ?_⟩
      intro d hd
      exact (hcs d hd).trans (List.suffix_cons x p).isInfix

theorem infix_of_mem_components {p d : Text} (h : d ∈ components p) : d <:+: p := by
  obtain ⟨c, cs, he, hc, hcs⟩ := components_infix p
  rw [he] at h
  rcases List.mem_cons.mp h with rfl | h
  · exact hc.isInfix
  · exact hcs d h

/-! ## Where a path leads -/

/-- One component, from the directory that is reached by the names `dir`. -/
def enter (dir : List Text) (c : Text) : List Text :=
  if c = [] ∨ c = ['.'] then dir
  else if c = up then dir.dropLast
  else dir ++ [c]

def resolve (dir : List Text) (cs : List Text) : List Text := cs.foldl enter dir

theorem resolve_append (dir : List Text) (cs ds : List Text) :
    resolve dir (cs ++ ds) = resolve (resolve dir cs) ds :=
  List.foldl_append

theorem prefix_enter {dir : List Text} {c : Text} (h : c ≠ up) : dir <+: enter dir c := by
  rw [enter, if_neg h]
  split
  · exact List.prefix_refl dir
  · exact List.prefix_append dir [c]

theorem prefix_resolve {cs : List Text} (dir : List Text) (h : up ∉ cs) :
    dir <+: resolve dir cs := by
  induction cs generalizing dir with
  | nil => exact List.prefix_refl dir
  | cons c cs ih =>
    have hc : c ≠ up := fun he => h (he ▸ List.mem_cons_self)
    exact (prefix_enter hc).trans (ih (enter dir c) fun hm => h (List.mem_cons_of_mem _ hm))

/-- The path goes on from `root` and not up. -/
def Below (root path : Text) : Prop :=
  ∃ rest, path = root ++ '/' :: rest ∧ up ∉ components rest

theorem below_iff {root rest : Text} : Below root (root ++ '/' :: rest) ↔ up ∉ components rest := by
  constructor
  · rintro ⟨rest', he, h⟩
    obtain rfl := (List.cons.inj (List.append_cancel_left he)).2
    exact h
  · intro h
    exact ⟨rest, rfl, h⟩

theorem Below.resolve {root path : Text} (h : Below root path) (dir : List Text) :
    resolve dir (components root) <+: resolve dir (components path) := by
  obtain ⟨rest, rfl, hrest⟩ := h
  rw [components_append, resolve_append]
  exact prefix_resolve _ hrest

end Paths
