/-! Where lists that are put together from others split. -/

namespace TokenAudit

theorem split_append {γ : Type} {l₁ l₂ before after : List γ} {x : γ}
    (h : l₁ ++ l₂ = before ++ x :: after) :
    (∃ rest, l₁ = before ++ x :: rest ∧ after = rest ++ l₂) ∨
      ∃ rest, before = l₁ ++ rest ∧ l₂ = rest ++ x :: after := by
  obtain ⟨rest, hb, hn⟩ | ⟨rest, hh, hx⟩ := List.append_eq_append_iff.mp h
  · exact .inr ⟨rest, hb, hn⟩
  · cases rest with
    | nil => exact .inr ⟨[], by rw [hh, List.append_nil, List.append_nil], hx.symm⟩
    | cons y rest =>
      obtain ⟨rfl, hafter⟩ := List.cons.inj hx
      exact .inl ⟨rest, hh, hafter⟩

theorem mem_of_split_concat {γ : Type} {l before after : List γ} {x y : γ}
    (h : l ++ [y] = before ++ x :: after) (hne : x ≠ y) : y ∈ after := by
  rcases List.eq_nil_or_concat after with rfl | ⟨rest, z, rfl⟩
  · obtain ⟨-, hlast⟩ := List.append_inj' h rfl
    exact absurd (List.singleton_inj.mp hlast).symm hne
  · rw [List.concat_eq_append, ← List.cons_append, ← List.append_assoc] at h
    obtain ⟨-, hlast⟩ := List.append_inj' h rfl
    rw [List.singleton_inj.mp hlast, List.concat_eq_append]
    exact List.mem_append_right _ List.mem_cons_self

theorem split_middle {γ : Type} {P : γ → Prop} {l₁ l₂ l₃ before after : List γ} {x : γ}
    (h₁ : ∀ y ∈ l₁, ¬P y) (h₃ : ∀ y ∈ l₃, ¬P y) (h : l₁ ++ (l₂ ++ l₃) = before ++ x :: after)
    (hx : P x) :
    ∃ front back, l₂ = front ++ x :: back ∧ before = l₁ ++ front ∧ after = back ++ l₃ := by
  obtain ⟨rest, rfl, -⟩ | ⟨front, rfl, hrest⟩ := split_append h
  · exact absurd hx (h₁ x (List.mem_append_right _ List.mem_cons_self))
  obtain ⟨back, rfl, rfl⟩ | ⟨rest, -, rfl⟩ := split_append hrest
  · exact ⟨front, back, rfl, rfl, rfl⟩
  · exact absurd hx (h₃ x (List.mem_append_right _ List.mem_cons_self))

theorem split_flatMap {γ δ : Type} {f : γ → List δ} {l : List γ} {before after : List δ} {x : δ}
    (h : l.flatMap f = before ++ x :: after) :
    ∃ pre y post front back, l = pre ++ y :: post ∧ f y = front ++ x :: back ∧
      before = pre.flatMap f ++ front ∧ after = back ++ post.flatMap f := by
  induction l generalizing before with
  | nil => exact absurd h (by simp)
  | cons z l ih =>
    rw [List.flatMap_cons] at h
    obtain ⟨rest, hz, hafter⟩ | ⟨rest, hbefore, hl⟩ := split_append h
    · exact ⟨[], z, l, before, rest, rfl, hz, rfl, hafter⟩
    · obtain ⟨pre, y, post, front, back, rfl, hy, rfl, hafter⟩ := ih hl
      refine ⟨z :: pre, y, post, front, back, rfl, hy, ?_, hafter⟩
      rw [hbefore, List.flatMap_cons, List.append_assoc]

end TokenAudit
