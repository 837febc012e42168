import Mathlib.Data.List.SplitOn

/-!
Texts: the pieces between separators, those of them that are not empty, and the length of a text
that is made of pieces.
-/

namespace Tokens

universe u v

variable {α : Type u} (isSep : α → Bool)

def tokens (text : List α) : List (List α) :=
  (text.splitOnP isSep).filter (fun piece => !piece.isEmpty)

/-- A piece that is one token. -/
structure Token (piece : List α) : Prop where
  nonempty : piece ≠ []
  free : ∀ x ∈ piece, isSep x = false

variable {isSep} {piece : List α} {sep : α}

theorem tokens_append_sep (before after : List α) (separates : isSep sep = true) :
    tokens isSep (before ++ sep :: after) = tokens isSep before ++ tokens isSep after := by
  unfold tokens
  rw [List.splitOnP_append_cons before after separates, List.filter_append]

theorem Token.tokens (token : Token isSep piece) : tokens isSep piece = [piece] := by
  unfold Tokens.tokens
  rw [List.splitOnP_eq_singleton token.free]
  simp [token.nonempty]

theorem Token.tokens_cons (token : Token isSep piece) (separates : isSep sep = true)
    (after : List α) :
    Tokens.tokens isSep (piece ++ sep :: after) = piece :: Tokens.tokens isSep after := by
  rw [tokens_append_sep piece after separates, token.tokens]
  rfl

theorem length_flatMap_le {ι : Type v} {f : ι → List α} {k : Nat} (is : List ι)
    (short : ∀ i ∈ is, (f i).length ≤ k) : (is.flatMap f).length ≤ is.length * k := by
  induction is with
  | nil => simp
  | cons i is ih =>
    have here := short i List.mem_cons_self
    have tail := ih fun j member => short j (List.mem_cons_of_mem i member)
    rw [List.flatMap_cons, List.length_append, List.length_cons, Nat.succ_mul]
    omega

theorem length_flatMap_eq {ι : Type v} {f : ι → List α} {k : Nat} (is : List ι)
    (same : ∀ i, (f i).length = k) : (is.flatMap f).length = is.length * k := by
  induction is with
  | nil => simp
  | cons i is ih =>
    rw [List.flatMap_cons, List.length_append, List.length_cons, Nat.succ_mul, same, ih]
    omega

end Tokens
