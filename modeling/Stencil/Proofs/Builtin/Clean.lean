import Stencil.Builtin.Filter
import Stencil.Builtin.Range
import Stencil.Builtin.Test
import Stencil.Proofs.Value.Clean

namespace Stencil

open Value (Clean CleanEntries CleanNamed)

namespace Json

inductive Goal.Clean : Goal → Prop
  | value : Clean .value
  | items {sofar : List Value} : (∀ v ∈ sofar, v.Clean) → Clean (.items sofar)
  | entries {sofar : List (Value × Value)} : CleanEntries sofar → Clean (.entries sofar)

theorem word?_clean {cs rest : List Char} {v : Value} (read : word? cs = some (v, rest)) :
    Clean v := by
  obtain ⟨⟨word, value⟩, member, found⟩ := List.exists_of_findSome?_eq_some read
  obtain ⟨_, _, given⟩ := Option.map_eq_some_iff.mp found
  cases given
  simp only [words, List.mem_cons, Prod.mk.injEq, List.not_mem_nil, or_false] at member
  rcases member with ⟨_, rfl⟩ | ⟨_, rfl⟩ | ⟨_, rfl⟩ | ⟨_, rfl⟩ | ⟨_, rfl⟩ | ⟨_, rfl⟩ <;> simp

theorem number?_clean {cs rest : List Char} {v : Value} (read : number? cs = some (v, rest)) :
    Clean v := by
  unfold number? at read
  simp only [Option.bind_eq_bind, Option.bind_eq_some_iff] at read
  obtain ⟨⟨whole, afterWhole⟩, _, read⟩ := read
  simp only at read
  split at read
  · split at read
    · cases read
    · cases read
      exact .int _
  · cases read
    exact .float _

theorem readWithin_clean {rounds : Nat} {goal : Goal} {cs rest : List Char} {v : Value}
    (sofar : goal.Clean) (read : readWithin rounds goal cs = some (v, rest)) : Clean v := by
  induction rounds generalizing goal cs v rest with
  | zero => cases read
  | succ rounds ih =>
      cases sofar with
      | value =>
          simp only [readWithin] at read
          split at read
          · obtain ⟨_, _, given⟩ := Option.map_eq_some_iff.mp read
            cases given
            exact .str _
          · split at read
            · cases read
              exact .list (by simp)
            · exact ih (.items (by simp)) read
          · split at read
            · cases read
              simp [CleanEntries]
            · exact ih (.entries (by simp [CleanEntries])) read
          · rcases Option.or_eq_some_iff.mp read with isWord | ⟨_, isNumber⟩
            · exact word?_clean isWord
            · exact number?_clean isNumber
      | @items items sofar =>
          simp only [readWithin, Option.bind_eq_bind, Option.bind_eq_some_iff] at read
          obtain ⟨⟨item, afterItem⟩, isItem, read⟩ := read
          have further : ∀ w ∈ item :: items, Clean w :=
            List.forall_mem_cons.mpr ⟨ih .value isItem, sofar⟩
          simp only at read
          split at read
          · cases read
            exact .list fun w member => further w (List.mem_reverse.mp member)
          · exact ih (.items further) read
          · cases read
      | @entries entries sofar =>
          simp only [readWithin] at read
          split at read
          · simp only [Option.bind_eq_bind, Option.bind_eq_some_iff] at read
            obtain ⟨⟨key, afterKey⟩, _, read⟩ := read
            simp only at read
            split at read
            · simp only [Option.bind_eq_some_iff] at read
              obtain ⟨⟨item, afterItem⟩, isItem, read⟩ := read
              have further := CleanEntries.setEntry (.str (String.ofList key)) (ih .value isItem)
                sofar
              simp only at read
              split at read
              · cases read
                exact Clean.dict_iff.mpr further
              · exact ih (.entries further) read
              · cases read
            · cases read
          · cases read

theorem read?_clean {cs : List Char} {v : Value} (read : read? cs = some v) : Clean v := by
  simp only [read?, Option.bind_eq_bind, Option.bind_eq_some_iff] at read
  obtain ⟨⟨value, rest⟩, isValue, read⟩ := read
  simp only at read
  split at read
  · cases read
    exact readWithin_clean .value isValue
  · cases read

end Json

structure Arguments.Clean (a : Arguments) : Prop where
  positional : ∀ v ∈ a.positional, v.Clean
  named : CleanNamed a.named

namespace Signature

theorem fill_clean {named : List (String × Value)} {parameters : List Parameter}
    {given : List Value} (defaults : ∀ p ∈ parameters, ∀ v ∈ p.default, Clean v)
    (hnamed : CleanNamed named) (hgiven : ∀ v ∈ given, Clean v) :
    ∀ e ∈ fill named parameters given, ∀ v ∈ e.2, Clean v := by
  induction parameters generalizing given with
  | nil => simp [fill]
  | cons p rest ih =>
      obtain ⟨here, further⟩ := List.forall_mem_cons.mp defaults
      cases given with
      | nil =>
          refine List.forall_mem_cons.mpr ⟨?_, ih further (by simp)⟩
          intro v found
          rcases Option.or_eq_some_iff.mp (Option.orElse_eq_or.symm.trans found) with
            isNamed | ⟨_, isDefault⟩
          · exact hnamed.lookup isNamed
          · exact here v isDefault
      | cons v given =>
          obtain ⟨hv, others⟩ := List.forall_mem_cons.mp hgiven
          refine List.forall_mem_cons.mpr ⟨?_, ih further others⟩
          intro w same
          cases same
          exact hv

theorem bind_clean {s : Signature} {a : Arguments}
    (defaults : ∀ p ∈ s.parameters, ∀ v ∈ p.default, Clean v) (clean : a.Clean) :
    Except.Gives (fun values => ∀ v ∈ values, Clean v) (s.bind a) := by
  unfold bind
  split
  · exact Except.gives_error
  · simp only
    split
    · exact Except.gives_error
    · split
      · refine Except.gives_ok.mpr fun v member => ?_
        obtain ⟨e, filled, given⟩ := List.mem_filterMap.mp member
        exact fill_clean defaults clean.named clean.positional e filled v given
      · exact Except.gives_error
      · exact Except.gives_error

end Signature

namespace Filter

variable {v : Value} {loopText : Nat → List Char}

@[simp] theorem plainText_clean (cs : List Char) : Clean (plainText cs) := .str _

@[simp] theorem plainTexts_clean (parts : List (List Char)) :
    Clean (.list (parts.map plainText)) := by
  simp

theorem safeText_clean {cs : List Char} (safe : Html.Safe Html.filterTags cs) :
    Clean (safeText cs) := by
  simpa [safeText] using safe

theorem textValue_clean (hv : Clean v) : Clean (textValue loopText v) := by
  unfold textValue
  split
  · exact hv
  · exact plainText_clean _

/-! Filters on text. -/

theorem truncate_clean {length suffix : Value} (hv : Clean v) (hsuffix : Clean suffix) :
    Except.Gives Clean (truncate loopText v length suffix) := by
  unfold truncate
  refine (Except.gives_true _).bind fun most _ => ?_
  dsimp only
  split
  · exact Except.gives_ok.mpr (textValue_clean hv)
  · exact Value.add_clean (plainText_clean _) hsuffix

theorem split_clean {separator : Value} (hv : Clean v) :
    Except.Gives Clean (split loopText v separator) := by
  unfold split
  split
  · exact Except.gives_ok.mpr (plainTexts_clean _)
  · split
    · exact Except.gives_error
    · dsimp only
      split
      · exact Except.gives_ok.mpr (.list (List.forall_mem_singleton.mpr (textValue_clean hv)))
      · exact Except.gives_ok.mpr (plainTexts_clean _)
  · split
    · exact Except.gives_error
    · dsimp only
      split
      · exact Except.gives_ok.mpr (.list (List.forall_mem_singleton.mpr (textValue_clean hv)))
      · exact Except.gives_ok.mpr (plainTexts_clean _)
  · exact Except.gives_error

theorem nl2br_clean (hv : Clean v) : Clean (nl2br loopText v) :=
  safeText_clean (breakLines_safe_both (hv.safe_escape loopText)).1

theorem dump_clean (shown : List Char) :
    Clean (safeText ("<pre>".toList ++ Html.escapeChars shown ++ "</pre>".toList)) :=
  safeText_clean (((Html.Safe.of_tag (by decide)).append (.escapeChars shown)).append
    (.of_tag (by decide)))

theorem urlEncode_clean : Clean (urlEncode loopText v) := by
  unfold urlEncode
  split
  · simpa using Html.Safe.nil
  · exact plainText_clean _

/-! Filters on collections: what they give was in the collection. -/

theorem items?_clean {items : List Value} (hv : Clean v) (found : items? v = some items) :
    ∀ w ∈ items, Clean w := by
  unfold items? at found
  split at found <;> cases found
  · exact Clean.list_iff.mp hv
  · exact Clean.tuple_iff.mp hv
  · exact List.forall_mem_map.mpr fun e member => (Clean.dict_iff.mp hv e member).2

theorem item_clean {pick : List Value → Option Value}
    (picks : ∀ {items : List Value} {w : Value}, pick items = some w → w ∈ items) (hv : Clean v) :
    Clean (((items? v).bind pick).getD .null) := by
  cases found : (items? v).bind pick with
  | none => exact .null
  | some w =>
      obtain ⟨items, hitems, picked⟩ := Option.bind_eq_some_iff.mp found
      exact items?_clean hv hitems w (picks picked)

theorem join_clean {separator : Value} (hv : Clean v) :
    Clean (join loopText v separator) := by
  unfold join
  split
  · exact plainText_clean _
  · exact hv

theorem keys_clean (hv : Clean v) : Clean (keys v) := by
  unfold keys
  split
  · exact .list (List.forall_mem_map.mpr fun e member => (Clean.dict_iff.mp hv e member).1)
  · exact .list (List.forall_mem_map.mpr fun _ _ => .int _)
  · exact .list (List.forall_mem_map.mpr fun _ _ => .int _)
  · exact .list (by simp)

theorem values_clean (hv : Clean v) : Clean (values v) := by
  unfold values
  cases found : items? v with
  | none => exact .list (by simp)
  | some items => exact .list (items?_clean hv found)

theorem reverse_clean (hv : Clean v) : Clean (reverse loopText v) := by
  unfold reverse
  split
  · exact Clean.dict_iff.mpr fun e member => Clean.dict_iff.mp hv e (List.mem_reverse.mp member)
  · exact .list fun w member => Clean.list_iff.mp hv w (List.mem_reverse.mp member)
  · exact .list fun w member => Clean.tuple_iff.mp hv w (List.mem_reverse.mp member)
  · exact plainText_clean _

theorem mem_of_mem_chunksWithin {α : Type} {size rounds : Nat} {items piece : List α} {a : α}
    (isPiece : piece ∈ chunksWithin size rounds items) (member : a ∈ piece) : a ∈ items := by
  induction rounds generalizing items with
  | zero => simp [chunksWithin] at isPiece
  | succ rounds ih =>
      cases items with
      | nil => simp [chunksWithin] at isPiece
      | cons first rest =>
          rcases List.mem_cons.mp isPiece with rfl | further
          · exact List.mem_of_mem_take member
          · exact List.mem_of_mem_drop (ih further)

theorem pad_clean {size : Nat} {filling : Value} {piece : List Value} (hfilling : Clean filling)
    (hpiece : ∀ w ∈ piece, Clean w) : ∀ w ∈ pad size filling piece, Clean w := by
  intro w member
  rcases List.mem_append.mp member with inPiece | isFilling
  · exact hpiece w inPiece
  · rw [List.eq_of_mem_replicate isFilling]
    exact hfilling

theorem batch_clean {size filling : Value} (hv : Clean v) (hfilling : Clean filling) :
    Except.Gives Clean (batch v size filling) := by
  unfold batch
  split
  · exact Except.gives_ok.mpr hv
  · next items found =>
      refine (Except.gives_true _).bind fun most _ => Except.gives_ok.mpr (.list ?_)
      have pieces : ∀ {size : Nat} {piece : List Value}, piece ∈ chunks size items →
          ∀ w ∈ piece, Clean w := fun isPiece w member =>
        items?_clean hv found w (mem_of_mem_chunksWithin isPiece member)
      intro w member
      obtain ⟨piece, isPiece, rfl⟩ := List.mem_map.mp member
      split at isPiece
      · exact .list (pieces isPiece)
      · obtain ⟨short, isShort, rfl⟩ := List.mem_map.mp isPiece
        exact .list (pad_clean hfilling (pieces isShort))

theorem cut_subset {α : Type} (items : List α) (start length : Value) :
    Except.Gives (· ⊆ items) (cut items start length) := by
  unfold cut
  refine (Except.gives_true _).bind fun from? _ => ?_
  have kept : dropTo items from? ⊆ items := fun _ => List.mem_of_mem_drop
  split
  · exact Except.gives_ok.mpr kept
  · exact (Except.gives_true _).bind fun most _ =>
      Except.gives_ok.mpr fun _ member => kept (List.mem_of_mem_take member)

theorem slice_clean {start length : Value} (hv : Clean v) :
    Except.Gives Clean (slice v start length) := by
  unfold slice
  split
  · next items found =>
      exact (cut_subset items start length).map fun part within =>
        .list fun w member => items?_clean hv found w (within member)
  · exact (Except.gives_true _).map fun _ _ => plainText_clean _
  · exact Except.gives_ok.mpr hv

/-! Filters on numbers and dates. -/

theorem round_clean {places : Value} : Except.Gives Clean (round loopText v places) := by
  unfold round
  refine (Except.gives_true _).bind fun places _ => (Except.gives_true _).bind fun q _ => ?_
  unfold roundedValue
  split
  · split
    · exact Except.gives_error
    · exact Except.gives_ok.mpr (.float _)
  · exact Except.gives_ok.mpr (.float _)
  · split
    · exact Except.gives_ok.mpr (.int _)
    · exact Except.gives_ok.mpr (.float _)

theorem numberFormat_clean {places point separator : Value} :
    Except.Gives Clean (numberFormat loopText v places point separator) := by
  unfold numberFormat
  refine (Except.gives_true _).bind fun places _ => (Except.gives_true _).bind fun q _ => ?_
  split
  · exact Except.gives_error
  · exact Except.gives_ok.mpr (plainText_clean _)

theorem formatted_clean (m : Moment) (format : Value) :
    Except.Gives Clean (formatted m format) := by
  unfold formatted
  split
  · split
    · exact Except.gives_error
    · exact Except.gives_ok.mpr (plainText_clean _)
  · exact Except.gives_error

theorem dateOfText_clean {text : String} {format : Value} (hv : Clean v) :
    Except.Gives Clean (dateOfText v text format) := by
  unfold dateOfText
  extract_lets stripped asDate
  have read : Except.Gives Clean asDate := by
    unfold asDate
    split
    · exact Except.gives_ok.mpr hv
    · next m _ =>
        split
        · split
          · exact Except.gives_ok.mpr hv
          · exact Except.gives_error
        · next given => exact Except.gives_ok.mpr (formatted_clean m format _ given)
  split
  · exact read
  · next f _ =>
      have stamped : Except.Gives Clean (momentOfFloat f >>= fun m => formatted m format) :=
        (Except.gives_true _).bind fun m _ => formatted_clean m format
      split
      · next given => exact Except.gives_ok.mpr (stamped _ given)
      · split
        · exact read
        · exact Except.gives_error

theorem date_clean {format : Value} (hv : Clean v) : Except.Gives Clean (date v format) := by
  unfold date
  split
  · exact formatted_clean _ _
  · exact formatted_clean _ _
  · exact (Except.gives_true _).bind fun m _ => formatted_clean m format
  · exact (Except.gives_true _).bind fun m _ => formatted_clean m format
  · exact dateOfText_clean hv
  · exact dateOfText_clean hv
  · exact Except.gives_ok.mpr hv

theorem applyPlain_clean (hv : Clean v) (n : Name) :
    Except.Gives Clean (applyPlain loopText v n) := by
  cases n with
  | abs => exact Value.absolute_clean _
  | dump => exact Except.gives_ok.mpr (dump_clean _)
  | escape => exact Except.gives_ok.mpr (safeText_clean (hv.safe_escape loopText))
  | first => exact Except.gives_ok.mpr (item_clean List.mem_of_head? hv)
  | last => exact Except.gives_ok.mpr (item_clean List.mem_of_getLast? hv)
  | json => exact (Except.gives_true _).map fun _ _ => plainText_clean _
  | jsonDecode =>
      refine Except.gives_ok.mpr ?_
      cases read : Json.read? (v.textOf loopText) with
      | none => exact .null
      | some w => exact Json.read?_clean read
  | keys => exact Except.gives_ok.mpr (keys_clean hv)
  | nl2br => exact Except.gives_ok.mpr (nl2br_clean hv)
  | reverse => exact Except.gives_ok.mpr (reverse_clean hv)
  | urlEncode => exact Except.gives_ok.mpr urlEncode_clean
  | values => exact Except.gives_ok.mpr (values_clean hv)
  | count | length => exact Except.gives_ok.mpr (.int _)
  | capitalize | lower | striptags | trim | upper | urlDecode =>
      exact Except.gives_ok.mpr (plainText_clean _)
  | batch | date | default | join | numberFormat | replace | round | slice | split | truncate =>
      exact Except.gives_ok.mpr hv

theorem apply_clean {n : Name} {args : List Value} (hv : Clean v) (hargs : ∀ w ∈ args, Clean w) :
    Except.Gives Clean (apply loopText n v args) := by
  unfold apply
  split
  · exact batch_clean hv (hargs _ (by simp))
  · exact date_clean hv
  · refine Except.gives_ok.mpr ?_
    split
    · exact hv
    · exact hargs _ (by simp)
  · exact Except.gives_ok.mpr (join_clean hv)
  · exact numberFormat_clean
  · exact Except.gives_ok.mpr (plainText_clean _)
  · exact round_clean
  · exact slice_clean hv
  · exact split_clean hv
  · exact truncate_clean hv (hargs _ (by simp))
  · exact applyPlain_clean hv n

theorem Name.defaults_clean (n : Name) :
    ∀ p ∈ n.signature.parameters, ∀ v ∈ p.default, Clean v := by
  cases n <;> simp [Name.signature, Name.parameters]

theorem call_clean {n : Name} {a : Arguments} (clean : a.Clean) :
    Except.Gives Clean (call loopText n a) := by
  unfold call
  refine (Signature.bind_clean n.defaults_clean clean).bind fun values all => ?_
  cases values with
  | nil => exact Except.gives_ok.mpr .null
  | cons v args => exact apply_clean (all v (by simp)) fun w member => all w (.tail _ member)

end Filter

theorem Test.call_clean (n : Test.Name) (a : Arguments) : Except.Gives Clean (Test.call n a) := by
  unfold Test.call
  refine (Except.gives_true _).bind fun values _ => ?_
  cases values with
  | nil => exact Except.gives_ok.mpr .null
  | cons v args => exact Except.gives_ok.mpr (.bool _)

namespace Range

theorem next_clean {a step : Value} (ha : Clean a) (hstep : Clean step) :
    Except.Gives Clean (next a step) := by
  unfold next
  split
  · next given => exact Except.gives_ok.mpr (Value.add_clean ha hstep _ given)
  · exact Except.gives_error

theorem countWithin_clean {op : Value.OrderOp} {last step : Value} {rounds : Nat}
    {reached : List Value} {current : Value} (hstep : Clean step)
    (hreached : ∀ v ∈ reached, Clean v) (hcurrent : Clean current) :
    Except.Gives (fun values => ∀ v ∈ values, Clean v)
      (countWithin op last step rounds reached current) := by
  induction rounds generalizing reached current with
  | zero => exact Except.gives_error
  | succ rounds ih =>
      unfold countWithin
      split
      · exact Except.gives_error
      · exact Except.gives_ok.mpr fun v member => hreached v (List.mem_reverse.mp member)
      · split
        · exact Except.gives_error
        · next given =>
            exact ih (List.forall_mem_cons.mpr ⟨hcurrent, hreached⟩)
              (next_clean hcurrent hstep _ given)

theorem inclusive_clean {first step : Value} (last : Value) (hfirst : Clean first)
    (hstep : Clean step) :
    Except.Gives (fun values => ∀ v ∈ values, Clean v) (inclusive first last step) := by
  unfold inclusive
  split
  · exact Except.gives_error
  · split
    · exact Except.gives_ok.mpr (List.forall_mem_map.mpr fun _ _ => .int _)
    · exact (Except.gives_true _).bind fun up _ =>
        countWithin_clean hstep (by simp) hfirst

theorem call_clean {a : Arguments} (clean : a.Clean) : Except.Gives Clean (call a) := by
  unfold call
  have defaults : ∀ p ∈ signature.parameters, ∀ v ∈ p.default, Clean v := by simp [signature]
  refine (Signature.bind_clean defaults clean).bind fun values all => ?_
  split
  · next first last step =>
      exact (inclusive_clean last (all _ (by simp)) (all _ (by simp))).bind fun items clean =>
        Except.gives_ok.mpr (.list clean)
  · exact Except.gives_ok.mpr .null

end Range

end Stencil
