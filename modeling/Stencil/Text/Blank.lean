namespace Stencil.Text

/-- The characters that separate words: the ASCII blanks, the four information separators, and
the space separators and line separators beyond ASCII. -/
def isBlank (c : Char) : Bool :=
  let n := c.toNat
  (9 ≤ n && n ≤ 13) || (28 ≤ n && n ≤ 32) || n == 0x85 || n == 0xA0 || n == 0x1680 ||
    (0x2000 ≤ n && n ≤ 0x200A) || n == 0x2028 || n == 0x2029 || n == 0x202F || n == 0x205F ||
    n == 0x3000

theorem space_isBlank : ∀ b ∈ [' '], isBlank b = true := List.forall_mem_singleton.mpr rfl

/-- The characters that end a line. A carriage return and the line feed after it end one line. -/
def isLineEnd (c : Char) : Bool :=
  let n := c.toNat
  (10 ≤ n && n ≤ 13) || (28 ≤ n && n ≤ 30) || n == 0x85 || n == 0x2028 || n == 0x2029

/-- The lines of a text without their ends. Nothing follows a line end at the very end. -/
def lines : List Char → List (List Char)
  | [] => []
  | '\r' :: '\n' :: rest => [] :: lines rest
  | c :: rest =>
      if isLineEnd c then [] :: lines rest
      else match lines rest with
        | [] => [[c]]
        | line :: more => (c :: line) :: more

@[simp] theorem lines_nil : lines [] = [] := rfl

theorem of_mem_lines {cs line : List Char} (listed : line ∈ lines cs) :
    ∀ c ∈ line, c ∈ cs ∧ isLineEnd c = false := by
  revert line
  change ∀ line ∈ lines cs, ∀ c ∈ line, c ∈ cs ∧ isLineEnd c = false
  fun_induction lines cs with
  | case1 => exact nofun
  | case2 rest ih =>
      rw [List.forall_mem_cons]
      exact ⟨nofun, fun line listed c member =>
        (ih line listed c member).imp_left fun later => .tail _ (.tail _ later)⟩
  | case3 d rest other ends ih =>
      rw [List.forall_mem_cons]
      exact ⟨nofun, fun line listed c member => (ih line listed c member).imp_left (.tail _)⟩
  | case4 d rest other inside none ih =>
      simpa using inside
  | case5 d rest other inside first more split ih =>
      rw [split, List.forall_mem_cons] at ih
      rw [List.forall_mem_cons, List.forall_mem_cons]
      exact ⟨⟨⟨.head _, by simpa using inside⟩, fun c member => (ih.1 c member).imp_left (.tail _)⟩,
        fun line listed c member => (ih.2 line listed c member).imp_left (.tail _)⟩

def stripWhere (p : Char → Bool) (cs : List Char) : List Char :=
  ((cs.dropWhile p).reverse.dropWhile p).reverse

def strip (cs : List Char) : List Char := stripWhere isBlank cs

def words (cs : List Char) : List (List Char) :=
  cs.foldr
    (fun c acc =>
      if isBlank c then
        match acc with
        | [] :: _ => acc
        | _ => [] :: acc
      else
        match acc with
        | [] => [[c]]
        | w :: ws => (c :: w) :: ws)
    [] |>.filter (· ≠ [])

def dropBeginning? : List Char → List Char → Option (List Char)
  | [], cs => some cs
  | _ :: _, [] => none
  | p :: ps, c :: cs => if p = c then dropBeginning? ps cs else none

@[simp] theorem dropBeginning?_nil (cs : List Char) : dropBeginning? [] cs = some cs := rfl

theorem dropBeginning?_append (p rest : List Char) : dropBeginning? p (p ++ rest) = some rest := by
  induction p with
  | nil => rfl
  | cons c p ih => rw [List.cons_append, dropBeginning?, if_pos rfl, ih]

theorem dropBeginning?_eq_some {p cs rest : List Char} (h : dropBeginning? p cs = some rest) :
    cs = p ++ rest := by
  induction p generalizing cs with
  | nil => simpa using h
  | cons a as ih =>
      cases cs with
      | nil => simp [dropBeginning?] at h
      | cons c cs =>
          by_cases hac : a = c
          · subst hac
            simp only [dropBeginning?, if_true] at h
            simp [ih h]
          · simp [dropBeginning?, hac] at h

def splitAt? (needle : List Char) : List Char → Option (List Char × List Char)
  | [] => (dropBeginning? needle []).map fun rest => ([], rest)
  | c :: cs =>
      match dropBeginning? needle (c :: cs) with
      | some rest => some ([], rest)
      | none => (splitAt? needle cs).map fun (before, rest) => (c :: before, rest)

theorem splitAt?_eq_some {needle cs before rest : List Char}
    (h : splitAt? needle cs = some (before, rest)) : cs = before ++ needle ++ rest := by
  induction cs generalizing before with
  | nil =>
      cases hd : dropBeginning? needle [] with
      | none => simp [splitAt?, hd] at h
      | some r =>
          simp only [splitAt?, hd, Option.map_some, Option.some.injEq, Prod.mk.injEq] at h
          obtain ⟨rfl, rfl⟩ := h
          simpa using dropBeginning?_eq_some hd
  | cons c cs ih =>
      cases hd : dropBeginning? needle (c :: cs) with
      | some r =>
          simp only [splitAt?, hd, Option.some.injEq, Prod.mk.injEq] at h
          obtain ⟨rfl, rfl⟩ := h
          simpa using dropBeginning?_eq_some hd
      | none =>
          simp only [splitAt?, hd, Option.map_eq_some_iff] at h
          obtain ⟨⟨b, r⟩, hb, heq⟩ := h
          simp only [Prod.mk.injEq] at heq
          obtain ⟨rfl, rfl⟩ := heq
          simp [ih hb]

end Stencil.Text
