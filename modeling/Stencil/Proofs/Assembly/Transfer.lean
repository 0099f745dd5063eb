import Stencil.Proofs.Assembly.Agreement

namespace Stencil

theorem Source.template_ok {s s' : Source} (text : s'.text = s.text) {limit : Int} {t : Template}
    (h : s.template limit = .ok t) : s'.template limit = .ok t := by
  obtain ⟨stream, hstream, hgrammar⟩ := Except.bind_ok h
  have tokens : s'.tokens = .ok stream := by
    rw [Source.tokens] at hstream ⊢
    rw [text]
    cases hsource : TokenStream.ofSource? s.text.toList with
    | ok stream' =>
        rw [hsource] at hstream
        exact hstream
    | error fault =>
        rw [hsource] at hstream
        cases hstream
  rw [Source.template, tokens]
  cases hread : Grammar.template limit stream.tokens with
  | ok t' =>
      rw [hread] at hgrammar
      simpa only [bind, Except.bind, hread] using hgrammar
  | error fault =>
      rw [hread] at hgrammar
      cases hgrammar

theorem checkCode_ok {filename filename' : Option String} {code : List Code}
    (h : checkCode filename code = .ok ()) : checkCode filename' code = .ok () := by
  rw [checkCode] at h ⊢
  split at h
  · cases h
  · next shallow =>
      split at h
      · cases h
      · next allowed => rw [if_neg shallow, if_neg allowed]

namespace Plan

variable {p q : Plan}

/-- Whether two plans differ in their libraries only. -/
structure Shares (p q : Plan) : Prop where
  registries : q.registries = p.registries
  limits : q.limits = p.limits

theorem Shares.refl (p : Plan) : Shares p p := ⟨rfl, rfl⟩

/-- Whether a name that leads to a text leads to the same text in another plan. -/
def SameText (p q : Plan) (name : String) : Prop :=
  ∀ sheet, p.sheet name = .ok sheet → ∃ sheet', q.sheet name = .ok sheet' ∧ sheet'.text = sheet.text

/-- What an include needs: its own template and all that it reads. -/
def Needs (p : Plan) (name read : String) : Prop :=
  read = name ∨ ∃ found, p.found name = .ok found ∧ p.Reads name found.template read

/-- Whether what is noted of an include's files keeps two trails in a relation. -/
def Notes (R : Trail → Trail → Prop) (p q : Plan) (name : String) : Prop :=
  ∀ flat flat', p.flattened name = .ok flat → q.flattened name = .ok flat' → ∀ t u, R t u →
    R { t with files := t.files ++ flat.2 } { u with files := u.files ++ flat'.2 }

theorem parse_carries (shares : Shares p q) {s s' : Source} (text : s'.text = s.text) {t : Template}
    (h : p.parse s = .ok t) : q.parse s' = .ok t := by
  rw [parse] at h ⊢
  rw [shares.limits]
  cases htemplate : s.template p.limits.nesting with
  | ok t' =>
      rw [htemplate] at h
      cases h
      rw [Source.template_ok text htemplate]
  | error d =>
      rw [htemplate] at h
      cases h

theorem found_of_sheet {name : String} {sheet : Sheet} {t : Template}
    (hsheet : p.sheet name = .ok sheet)
    (hparse : p.parse ⟨sheet.text, some name, sheet.filename⟩ = .ok t) :
    p.found name = .ok ⟨t, sheet.filename⟩ := by
  simp only [found, hsheet, bind, Except.bind, hparse]
  rfl

theorem found_carries (shares : Shares p q) {name : String} (same : SameText p q name)
    {found : Found} (h : p.found name = .ok found) :
    ∃ found', q.found name = .ok found' ∧ found'.template = found.template := by
  obtain ⟨sheet, hsheet, hparse, _⟩ := found_ok h
  obtain ⟨sheet', hsheet', text⟩ := same sheet hsheet
  exact ⟨_, found_of_sheet hsheet' (parse_carries shares text hparse), rfl⟩

theorem flatten_carries (shares : Shares p q) {t : Template} {name : String}
    {flat : Template × List String} (h : p.flatten t name = .ok flat)
    (same : ∀ read, Chain.Ancestor p.found t read → SameText p q read) :
    ∃ flat', q.flatten t name = .ok flat' ∧ flat'.1 = flat.1 := by
  rw [flatten, shares.limits]
  exact Chain.flatten_carries h fun _ _ isAncestor hfound =>
    found_carries shares (same _ isAncestor) hfound

theorem flattened_carries (shares : Shares p q) {name : String} {flat : Template × List String}
    (h : p.flattened name = .ok flat) (same : ∀ read, p.Needs name read → SameText p q read) :
    ∃ flat', q.flattened name = .ok flat' ∧ flat'.1 = flat.1 := by
  obtain ⟨found, inner, hfound, hflatten, rfl⟩ := flattened_ok h
  obtain ⟨found', hfound', sameTemplate⟩ := found_carries shares (same name (.inl rfl)) hfound
  obtain ⟨inner', hinner', sameBody⟩ := flatten_carries shares hflatten fun read isAncestor =>
    same read (.inr ⟨found, hfound, .ancestor isAncestor⟩)
  rw [← sameTemplate] at hinner'
  exact ⟨_, flattened_of_found hfound' hinner', sameBody⟩

theorem Needs.within {name inner read : String} {flat : Template × List String}
    (h : p.flattened name = .ok flat) (member : Stmt.Includes flat.1.body inner)
    (needs : p.Needs inner read) : p.Needs name read := by
  obtain ⟨found, body, hfound, hflatten, rfl⟩ := flattened_ok h
  rcases needs with rfl | ⟨further, hfurther, reads⟩
  · exact .inr ⟨found, hfound, .included hflatten member⟩
  · exact .inr ⟨found, hfound, .within hflatten member hfurther reads⟩

section Unfolds

variable {P Q : Template × List String → Prop} {room : Nat} {stack : List String} {name : String}

theorem Unfolds.carries (shares : Shares p q) (unfolds : p.Unfolds P room stack name)
    (same : ∀ read, p.Needs name read → SameText p q read) :
    q.Unfolds (fun _ => True) room stack name := by
  induction room generalizing stack name with
  | zero => exact unfolds
  | succ room ih =>
      obtain ⟨fresh, flat, hflat, _, further⟩ := unfolds
      obtain ⟨flat', hflat', sameBody⟩ := flattened_carries shares hflat same
      refine ⟨fresh, flat', hflat', trivial, fun inner member => ?_⟩
      rw [sameBody] at member
      exact ih (further inner member) fun read needs => same read (needs.within hflat member)

theorem Unfolds.search (shares : Shares p q) (unfolds : p.Unfolds P room stack name)
    (same : ∀ read, p.Needs name read → SameText p q read) {rounds rounds' : Nat}
    (enough : room ≤ rounds) (enough' : room ≤ rounds') (seen : List String) :
    p.includeUsesLoop rounds seen name = q.includeUsesLoop rounds' seen name := by
  induction room generalizing stack name rounds rounds' seen with
  | zero => exact unfolds.elim
  | succ room ih =>
      obtain ⟨rounds, rfl⟩ := Nat.exists_eq_add_of_le' enough
      obtain ⟨rounds', rfl⟩ := Nat.exists_eq_add_of_le' enough'
      obtain ⟨_, flat, hflat, _, further⟩ := unfolds
      obtain ⟨flat', hflat', sameBody⟩ := flattened_carries shares hflat same
      rw [← Nat.add_assoc, ← Nat.add_assoc, includeUsesLoop, includeUsesLoop, hflat, hflat']
      simp only [sameBody]
      rw [anyUsesLoop_congr flat.1.body]
      intro pos inner leaf
      have member : Stmt.Includes flat.1.body inner := ⟨pos, leaf⟩
      exact ih (further inner member) (fun read needs => same read (needs.within hflat member))
        (by omega) (by omega) (name :: seen)

open Assembly in
theorem Unfolds.expand (shares : Shares p q) {stack' : List String}
    {template template' : Option String} {R : Trail → Trail → Prop}
    (here : p.Unfolds P room stack name) (there : q.Unfolds Q room stack' name)
    (same : ∀ read, p.Needs name read → SameText p q read)
    (notes : ∀ read, p.Needs name read → Notes R p q read)
    (shallow : room ≤ p.limits.depth.toNat) (locals : List String) :
    Carries R (expandInclude p template room stack locals name)
      (expandInclude q template' room stack' locals name) := by
  induction room generalizing stack stack' name locals with
  | zero => exact here.elim
  | succ room ih =>
      obtain ⟨fresh, flat, hflat, _, further⟩ := here
      obtain ⟨fresh', flat', hflat', _, further'⟩ := there
      obtain ⟨flat'', hflat'', sameBody⟩ := flattened_carries shares hflat same
      rw [hflat'] at hflat''
      cases hflat''
      have notIn : ¬ stack.contains name = true := by simpa using fresh
      have notIn' : ¬ stack'.contains name = true := by simpa using fresh'
      rw [expandInclude, expandInclude]
      simp only [if_neg notIn, if_neg notIn', hflat, hflat', sameBody]
      refine .bind (.noteFiles (notes name (.inl rfl) flat flat' hflat hflat')) fun _ => ?_
      refine assembleAll_carries shares.registries flat.1.body ?_
      intro pos inner leaf
      have member : Stmt.Includes flat.1.body inner := ⟨pos, leaf⟩
      have member' : Stmt.Includes flat'.1.body inner := by rwa [sameBody]
      have sameWithin : ∀ read, p.Needs inner read → SameText p q read :=
        fun read needs => same read (needs.within hflat member)
      have notesWithin : ∀ read, p.Needs inner read → Notes R p q read :=
        fun read needs => notes read (needs.within hflat member)
      have limits : q.limits.depth = p.limits.depth := by rw [shares.limits]
      refine ⟨fun locals => ?_, ?_⟩
      · exact ih (further inner member) (further' inner member') sameWithin notesWithin (by omega)
          locals
      · refine (further inner member).search shares sameWithin ?_ ?_ []
        · simp only [searchRounds]
          omega
        · simp only [searchRounds, limits]
          omega

/-- An include unfolds below another name in place of the first one, if that name stands for a
template that includes something on the way to the include: it could not be met again. -/
theorem Unfolds.restack (unfolds : p.Unfolds P room stack name) {other : String}
    {around : Template × List String} (hother : p.flattened other = .ok around)
    (included : ∃ inner, Stmt.Includes around.1.body inner ∧ inner ∈ name :: stack)
    {stack' : List String} (names : stack' ⊆ other :: stack) : p.Unfolds P room stack' name := by
  induction room generalizing stack stack' name with
  | zero => exact unfolds
  | succ room ih =>
      obtain ⟨fresh, flat, hflat, satisfied, further⟩ := unfolds
      obtain ⟨first, isIncluded, onStack⟩ := included
      refine ⟨?_, flat, hflat, satisfied, fun inner member => ?_⟩
      · intro member
        rcases List.mem_cons.mp (names member) with rfl | old
        · -- The other name would expand again what it stands around.
          rw [hother] at hflat
          cases hflat
          cases room with
          | zero => exact further first isIncluded
          | succ room => exact (further first isIncluded).1 onStack
        · exact fresh old
      · refine ih (further inner member) ⟨first, isIncluded, List.mem_cons_of_mem _ onStack⟩ ?_
        intro entry atEntry
        rcases List.mem_cons.mp atEntry with rfl | old
        · exact List.mem_cons_of_mem _ List.mem_cons_self
        · rcases List.mem_cons.mp (names old) with rfl | older
          · exact List.mem_cons_self
          · exact List.mem_cons_of_mem _ (List.mem_cons_of_mem _ older)

end Unfolds

/-- Whether a source can be assembled with nothing missing: its template is flattened, and all
includes of the flattened template unfold. -/
structure Unfolded (p : Plan) (s : Source) (t flat : Template) : Prop where
  parsed : p.parse s = .ok t
  flattened : ∃ files, p.flatten t (firstGiven [s.name] "<string>") = .ok (flat, files)
  unfolds : ∀ inner, Stmt.Includes flat.body inner →
    p.Unfolds (fun _ => True) p.limits.depth.toNat [firstGiven [s.name] unnamed] inner

section Unfolded

variable {s s' : Source} {t flat : Template} {a : Assembled} {u : Trail}

theorem Unfolded.of_assemble (run : (p.assemble s).run {} = (.ok a, u)) (complete : a.complete)
    (hparse : p.parse s = .ok t) : ∃ flat, p.Unfolded s t flat := by
  obtain ⟨t', flat, hparse', hflatten, _⟩ := assemble_ok run
  rw [hparse] at hparse'
  cases hparse'
  refine ⟨flat.1, hparse, ⟨flat.2, hflatten⟩, fun inner member => ?_⟩
  exact (unfolds_of_assemble run complete hparse hflatten member).mono fun _ _ => trivial

theorem Unfolded.reads (unfolded : p.Unfolded s t flat) {inner read : String}
    (member : Stmt.Includes flat.body inner) (needs : p.Needs inner read) :
    p.Reads (firstGiven [s.name] "<string>") t read := by
  obtain ⟨files, hflatten⟩ := unfolded.flattened
  rcases needs with rfl | ⟨found, hfound, reads⟩
  · exact .included hflatten member
  · exact .within hflatten member hfound reads

theorem Unfolded.carries (shares : Shares p q) (unfolded : p.Unfolded s t flat)
    (text : s'.text = s.text) (name : s'.name = s.name)
    (same : ∀ read, p.Reads (firstGiven [s.name] "<string>") t read → SameText p q read) :
    q.Unfolded s' t flat := by
  obtain ⟨files, hflatten⟩ := unfolded.flattened
  obtain ⟨⟨_, files'⟩, hflatten', rfl⟩ := flatten_carries shares hflatten fun read isAncestor =>
    same read (.ancestor isAncestor)
  refine ⟨parse_carries shares text unfolded.parsed, ?_, fun inner member => ?_⟩
  · rw [name]
    exact ⟨files', hflatten'⟩
  · rw [name, shares.limits]
    exact (unfolded.unfolds inner member).carries shares fun read needs =>
      same read (unfolded.reads member needs)

theorem firstGiven_some {name : String} (given : name ≠ "") (default : String) :
    firstGiven [some name] default = name := by
  simp [firstGiven, given]

theorem Unfolded.renamed (unfolded : p.Unfolded s t flat) {name name' : String}
    (hname : s.name = some name) (hname' : s'.name = some name') (given : name ≠ "")
    (given' : name' ≠ "") (text : s'.text = s.text) {sheet : Sheet}
    (hsheet : p.sheet name' = .ok sheet) (same : sheet.text = s.text) :
    p.Unfolded s' t flat := by
  obtain ⟨files, hflatten⟩ := unfolded.flattened
  have hparse : p.parse ⟨sheet.text, some name', sheet.filename⟩ = .ok t :=
    parse_carries (.refl p) same unfolded.parsed
  have hfound : p.found name' = .ok ⟨t, sheet.filename⟩ := found_of_sheet hsheet hparse
  obtain ⟨⟨_, files'⟩, hflatten', rfl⟩ := Chain.flatten_renamed hflatten hfound rfl
  refine ⟨parse_carries (.refl p) text unfolded.parsed, ?_, fun inner member => ?_⟩
  · rw [hname', firstGiven_some given']
    exact ⟨files', hflatten'⟩
  · have hflattened := flattened_of_found hfound hflatten'
    rw [hname', firstGiven_some given']
    have unfolds := unfolded.unfolds inner member
    rw [hname, firstGiven_some given] at unfolds
    exact unfolds.restack hflattened ⟨inner, member, List.mem_cons_self⟩ (by simp)

/-- The same code is assembled from a source that can be assembled in both plans, and what is noted
on the way keeps two trails in each relation that the files of the includes keep. -/
theorem Unfolded.assemble_carries {R : Trail → Trail → Prop} (shares : Shares p q)
    (run : (p.assemble s).run {} = (.ok a, u)) (here : p.Unfolded s t flat)
    (there : q.Unfolded s' t flat)
    (same : ∀ read, p.Reads (firstGiven [s.name] "<string>") t read → SameText p q read)
    (notes : ∀ read, p.Reads (firstGiven [s.name] "<string>") t read → Notes R p q read)
    (start : R {} {}) :
    ∃ a' u', (q.assemble s').run {} = (.ok a', u') ∧ a'.code = a.code ∧ R u u' := by
  obtain ⟨files, hflatten⟩ := here.flattened
  obtain ⟨files', hflatten'⟩ := there.flattened
  obtain ⟨t', whole, hparse, hwhole, runBody, hcheck, _⟩ := assemble_ok run
  rw [here.parsed] at hparse
  cases hparse
  rw [hflatten] at hwhole
  cases hwhole
  have limits : q.limits.depth = p.limits.depth := by rw [shares.limits]
  have carries : Assembly.Carries R
      (assembleAll p s.name ⟨false, expandInclude p s.name p.limits.depth.toNat
        [firstGiven [s.name] unnamed]⟩ [] flat.body)
      (assembleAll q s'.name ⟨false, expandInclude q s'.name q.limits.depth.toNat
        [firstGiven [s'.name] unnamed]⟩ [] flat.body) := by
    refine assembleAll_carries shares.registries flat.body ?_
    intro pos inner leaf
    have member : Stmt.Includes flat.body inner := ⟨pos, leaf⟩
    have sameWithin : ∀ read, p.Needs inner read → SameText p q read :=
      fun read needs => same read (here.reads member needs)
    have notesWithin : ∀ read, p.Needs inner read → Notes R p q read :=
      fun read needs => notes read (here.reads member needs)
    have unfolds := here.unfolds inner member
    have unfolds' := there.unfolds inner member
    rw [limits] at unfolds'
    refine ⟨fun locals => ?_, unfolds.search shares sameWithin ?_ ?_ []⟩
    · rw [limits]
      exact unfolds.expand shares unfolds' sameWithin notesWithin (Nat.le_refl _) locals
    · simp only [searchRounds]
      omega
    · simp only [searchRounds, limits]
      omega
  obtain ⟨u', runBody', related⟩ := carries {} {} a.code u start runBody
  refine ⟨⟨a.code, (files' ++ u'.files).eraseDups, u'.missing.isEmpty⟩, u', ?_, rfl, related⟩
  simp only [Plan.assemble, Assembly.ofExcept, Step.run_bind, Step.run_mk_pure, there.parsed,
    hflatten', runBody', checkCode_ok hcheck, Step.run_get, Step.run_pure]

theorem Unfolded.assemble (shares : Shares p q) (run : (p.assemble s).run {} = (.ok a, u))
    (here : p.Unfolded s t flat) (there : q.Unfolded s' t flat)
    (same : ∀ read, p.Reads (firstGiven [s.name] "<string>") t read → SameText p q read) :
    ∃ a' u', (q.assemble s').run {} = (.ok a', u') ∧ a'.code = a.code := by
  obtain ⟨a', u', run', sameCode, _⟩ := here.assemble_carries (R := fun _ _ => True) shares run
    there same (fun _ _ _ _ _ _ _ _ _ => trivial) trivial
  exact ⟨a', u', run', sameCode⟩

end Unfolded

end Plan

end Stencil
