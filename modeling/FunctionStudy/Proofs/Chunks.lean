import FunctionStudy.Chunks
import FunctionStudy.Proofs.Decimal.Numeral

/-! The only split at delimiters: the first piece of any other one is already the first chunk. -/

namespace FunctionStudy

/-- Pieces that make up a text, none of them empty. A delimiter stands first in its piece or nowhere, and each
piece but the first starts with one. -/
structure IsSplit (isDelimiter : Char → Bool) (text : List Char) (pieces : List (List Char)) : Prop where
  joined : pieces.flatten = text
  nonempty : ∀ piece ∈ pieces, piece ≠ []
  unbroken : ∀ piece ∈ pieces, ∀ c ∈ piece.tail, isDelimiter c = false
  delimited : ∀ piece ∈ pieces.tail, ∃ c ∈ piece.head?, isDelimiter c = true

variable {isDelimiter : Char → Bool} {c : Char} {body rest text : List Char} {piece : List Char}
  {pieces : List (List Char)}

theorem chunks_cons (hb : ∀ d ∈ body, isDelimiter d = false) (hr : ∀ d ∈ rest.head?, isDelimiter d = true) :
    chunks isDelimiter (c :: (body ++ rest)) = (c :: body) :: chunks isDelimiter rest := by
  obtain ⟨ht, hd⟩ := Text.span_append (p := fun d => !isDelimiter d) body rest
    (by simpa using hb) (by simpa using hr)
  rw [chunks, ht, hd]

section Chunks

theorem head?_dropWhile_delimiter (text : List Char) :
    ∀ d ∈ (text.dropWhile fun d => !isDelimiter d).head?, isDelimiter d = true := by
  intro d hd
  have stop := List.head?_dropWhile_not (fun d => !isDelimiter d) text
  rw [Option.mem_def.mp hd] at stop
  simpa using stop

theorem head_of_mem_chunks (starts : ∀ d ∈ text.head?, isDelimiter d = true) :
    ∀ piece ∈ chunks isDelimiter text, ∃ d ∈ piece.head?, isDelimiter d = true := by
  fun_induction chunks isDelimiter text with
  | case1 => exact List.forall_mem_nil _
  | case2 c rest ih =>
    exact List.forall_mem_cons.mpr ⟨⟨c, rfl, starts c rfl⟩, ih (head?_dropWhile_delimiter rest)⟩

theorem isSplit_chunks (isDelimiter : Char → Bool) (text : List Char) :
    IsSplit isDelimiter text (chunks isDelimiter text) where
  joined := flatten_chunks isDelimiter text
  nonempty := by
    fun_induction chunks isDelimiter text with
    | case1 => exact List.forall_mem_nil _
    | case2 c rest ih => exact List.forall_mem_cons.mpr ⟨List.cons_ne_nil _ _, ih⟩
  unbroken := by
    fun_induction chunks isDelimiter text with
    | case1 => exact List.forall_mem_nil _
    | case2 c rest ih =>
      refine List.forall_mem_cons.mpr ⟨fun d hd => ?_, ih⟩
      have kept := List.all_eq_true.mp List.all_takeWhile d hd
      simpa using kept
  delimited := by
    cases text with
    | nil =>
      rw [chunks_nil]
      exact List.forall_mem_nil _
    | cons c rest =>
      rw [chunks, List.tail_cons]
      exact head_of_mem_chunks (head?_dropWhile_delimiter rest)

end Chunks

section Uniqueness

theorem IsSplit.tail (h : IsSplit isDelimiter text (piece :: pieces)) :
    IsSplit isDelimiter pieces.flatten pieces where
  joined := rfl
  nonempty other ho := h.nonempty other (List.mem_cons_of_mem piece ho)
  unbroken other ho := h.unbroken other (List.mem_cons_of_mem piece ho)
  delimited other ho := h.delimited other (List.mem_of_mem_tail ho)

theorem IsSplit.head?_flatten (h : IsSplit isDelimiter text (piece :: pieces)) :
    ∀ d ∈ pieces.flatten.head?, isDelimiter d = true := by
  intro d hd
  cases pieces with
  | nil => cases hd
  | cons next others =>
    obtain ⟨first, starts, delimiter⟩ := h.delimited next List.mem_cons_self
    obtain ⟨more, rfl⟩ := List.head?_eq_some_iff.mp starts
    obtain rfl : first = d := Option.some.inj hd
    exact delimiter

theorem IsSplit.chunks_eq (h : IsSplit isDelimiter text pieces) : chunks isDelimiter text = pieces := by
  -- On the pieces, not on the text: where the first piece ends is what a split says and a text does not.
  induction pieces generalizing text with
  | nil => rw [← h.joined, List.flatten_nil, chunks_nil]
  | cons piece pieces ih =>
    obtain ⟨c, body, rfl⟩ := List.exists_cons_of_ne_nil (h.nonempty piece List.mem_cons_self)
    have unbroken : ∀ d ∈ body, isDelimiter d = false := h.unbroken (c :: body) List.mem_cons_self
    rw [← h.joined, List.flatten_cons, List.cons_append, chunks_cons unbroken h.head?_flatten, ih h.tail]

end Uniqueness

/-- Cutting an expression loses nothing, and its chunks are the only split of it at the delimiters. -/
theorem chunks_only_split (isDelimiter : Char → Bool) (expression : String) (pieces : List String) :
    (chunks isDelimiter expression.toList).map String.ofList = pieces ↔
      IsSplit isDelimiter expression.toList (pieces.map String.toList) := by
  have letters : String.toList ∘ String.ofList = id := funext fun _ => String.toList_ofList
  have texts : String.ofList ∘ String.toList = id := funext fun _ => String.ofList_toList
  constructor
  · rintro rfl
    rw [List.map_map, letters, List.map_id]
    exact isSplit_chunks isDelimiter expression.toList
  · intro split
    rw [split.chunks_eq, List.map_map, texts, List.map_id]

end FunctionStudy
