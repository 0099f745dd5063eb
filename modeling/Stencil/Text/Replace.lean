namespace Stencil.Text

/-- Replaces matches from left to right. `found?` gives the length of the match that starts where
it is asked and the text put in its place; `skip` characters still belong to the last match. -/
def replaceFrom (found? : List Char → Option (Nat × List Char)) :
    (skip : Nat) → List Char → List Char
  | _, [] => []
  | skip + 1, _ :: cs => replaceFrom found? skip cs
  | 0, c :: cs =>
      match found? (c :: cs) with
      | some (size, image) => image ++ replaceFrom found? (size - 1) cs
      | none => c :: replaceFrom found? 0 cs

/-- Replaces every leftmost match that does not overlap the one before it. -/
def replaceMatches (found? : List Char → Option (Nat × List Char)) (cs : List Char) : List Char :=
  replaceFrom found? 0 cs

@[simp] theorem replaceFrom_nil (found? : List Char → Option (Nat × List Char)) (skip : Nat) :
    replaceFrom found? skip [] = [] := by
  cases skip <;> rfl

@[simp] theorem replaceFrom_succ (found? : List Char → Option (Nat × List Char)) (skip : Nat)
    (c : Char) (cs : List Char) :
    replaceFrom found? (skip + 1) (c :: cs) = replaceFrom found? skip cs := rfl

theorem replaceFrom_append (found? : List Char → Option (Nat × List Char))
    (skipped cs : List Char) :
    replaceFrom found? skipped.length (skipped ++ cs) = replaceFrom found? 0 cs := by
  induction skipped with
  | nil => rfl
  | cons c rest ih => simpa using ih

section Matches

variable {found? : List Char → Option (Nat × List Char)}

@[simp] theorem replaceMatches_nil : replaceMatches found? [] = [] := rfl

theorem replaceMatches_found {found rest image : List Char} (nonempty : found ≠ [])
    (isMatch : found? (found ++ rest) = some (found.length, image)) :
    replaceMatches found? (found ++ rest) = image ++ replaceMatches found? rest := by
  obtain ⟨c, found, rfl⟩ := List.exists_cons_of_ne_nil nonempty
  rw [List.cons_append] at isMatch ⊢
  simp only [replaceMatches, replaceFrom, isMatch, List.length_cons, Nat.add_sub_cancel]
  rw [replaceFrom_append]

theorem replaceMatches_missed {c : Char} {cs : List Char} (missed : found? (c :: cs) = none) :
    replaceMatches found? (c :: cs) = c :: replaceMatches found? cs := by
  simp only [replaceMatches, replaceFrom, missed]

end Matches

def beginsWith : List Char → List Char → Bool
  | [], _ => true
  | _ :: _, [] => false
  | n :: ns, c :: cs => n == c && beginsWith ns cs

/-- Replaces every occurrence of `needle` from left to right. An empty `needle` stands before
every character and at the end. -/
def replaceAll (needle image cs : List Char) : List Char :=
  match needle with
  | [] => image ++ cs.flatMap fun c => c :: image
  | _ => replaceMatches
      (fun rest => if beginsWith needle rest then some (needle.length, image) else none) cs

/-- The parts of a text between the occurrences of a separator; `skip` characters still belong to
the last occurrence. -/
def splitFrom (separator : List Char) : (skip : Nat) → List Char → List (List Char)
  | _, [] => [[]]
  | skip + 1, _ :: cs => splitFrom separator skip cs
  | 0, c :: cs =>
      if beginsWith separator (c :: cs) then
        [] :: splitFrom separator (separator.length - 1) cs
      else
        match splitFrom separator 0 cs with
        | [] => [[c]]
        | part :: parts => (c :: part) :: parts

/-- The parts of a text between the occurrences of a separator that is not empty. -/
def splitOn (separator cs : List Char) : List (List Char) := splitFrom separator 0 cs

end Stencil.Text
