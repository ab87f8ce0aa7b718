import LetPoly.Proofs.VarNames
import LetPoly.Proofs.WrittenTypes

/-!
# Reading written schemes

The written form of a scheme is read as the scheme with its variables renumbered
(`Scheme.parse_text`): the quantified ones from zero in the order in which they are named, then the
free ones in the order of their first occurrence. The new numbers keep the variables apart
(`apart_renumber`), as there are no more variables than numbers. The free variables of a scheme that
was itself read from a source have these numbers already (`NumberedBy.renumber_eq`).
-/

namespace LetPoly

open Token (Lexeme ReadsAs idents)

namespace Scheme
variable {s : Scheme} {v w : TyVar} {qs : List String} {ls : List Lexeme} {t : Ty}

/-! ### The names of the variables -/

theorem isOne_nameIn (hpos : ∀ v ∈ s.body.occurrences, 0 ≤ v) (hv : v ∈ s.body.occurrences) :
    Token.IsOne .ident (nameIn s.order v) := by
  by_cases hq : v ∈ s.order
  · rw [nameIn_of_mem hq]
    exact TyVar.isOne_name _
  · rw [nameIn_of_not_mem hq]
    exact TyVar.isOne_text (hpos v hv)

/-- Variables of two schemes are written alike if both are named by the same place, or both by their
number and equal. -/
theorem nameIn_eq_iff {l m : List TyVar} : nameIn l v = nameIn m w ↔
    v ∈ l ∧ w ∈ m ∧ l.idxOf v = m.idxOf w ∨ v ∉ l ∧ w ∉ m ∧ v = w := by
  by_cases hv : v ∈ l <;> by_cases hw : w ∈ m
  · simp [hv, hw, nameIn_of_mem, TyVar.name_injective.eq_iff]
  · simp [hv, hw, nameIn_of_mem, nameIn_of_not_mem, TyVar.name_ne_text]
  · simp [hv, hw, nameIn_of_mem, nameIn_of_not_mem, (TyVar.name_ne_text _ _).symm]
  · simp [hv, hw, nameIn_of_not_mem, TyVar.text_injective.eq_iff]

theorem nameIn_injective (l : List TyVar) : Function.Injective (nameIn l) := by
  intro v w h
  rcases nameIn_eq_iff.1 h with ⟨hv, -, hidx⟩ | ⟨-, -, he⟩
  · exact (List.idxOf_inj hv).1 hidx
  · exact he

theorem map_nameIn_order (s : Scheme) :
    s.order.map (nameIn s.order) = (List.range s.vars.size).map TyVar.name := by
  refine List.ext_getElem (by simp [length_order]) fun i hi hi' => ?_
  rw [List.getElem_map, List.getElem_map, List.getElem_range, nameIn_of_mem (List.getElem_mem _),
    s.nodup_order.idxOf_getElem]

/-! ### Quantifiers -/

/-- The lexemes in front of the body of a scheme that quantifies the names `qs`. -/
def headLexemes (qs : List String) : List Lexeme :=
  if qs = [] then [] else (.forAll, "forall") :: (qs.map (Prod.mk .ident) ++ [(.dot, ".")])

theorem derives_head (hqs : qs.Nodup) (h : Ty.Derives (numberIn (roster qs (idents ls))) ls t) :
    Derives (headLexemes qs ++ ls) (.forAll (qs.map (numberIn qs)) t) := by
  unfold headLexemes
  split
  · rename_i hnil
    subst hnil
    exact .mono h
  · rename_i hne
    have herase : qs.eraseDups = qs := eraseDups_of_nodup hqs
    have hforAll := Derives.forAll (f := "forall") (d := ".") hne (herase.symm ▸ h)
    rw [herase] at hforAll
    simpa using hforAll

theorem namesText_eq (n : Nat) :
    namesText n = String.join (((List.range n).map TyVar.name).map (" " ++ ·)) := by
  rw [namesText, List.map_map]
  rfl

theorem stops_names (xs : List String) {rest : Source} (hrest : rest.Stops) :
    Source.Stops (.ofString (String.join (xs.map (" " ++ ·))) ++ rest) := by
  cases xs with
  | nil => exact hrest
  | cons x xs =>
    rw [List.map_cons, String.join_cons, String.append_assoc]
    exact Token.stops_space_append _ rest

theorem readsAs_names {xs : List String} (h : ∀ x ∈ xs, Token.IsOne .ident x) :
    ReadsAs (String.join (xs.map (" " ++ ·))) (xs.map (Prod.mk .ident)) := by
  induction xs with
  | nil => exact ReadsAs.nil
  | cons x xs ih =>
    have hx : ReadsAs x [(.ident, x)] := ReadsAs.one rfl (h x List.mem_cons_self)
    rw [List.map_cons, String.join_cons]
    exact hx.space.append (ih fun y hy => h y (List.mem_cons_of_mem x hy)) fun _ => stops_names xs

theorem readsAs_head {body : String} (n : Nat) (h : ReadsAs body ls) :
    ReadsAs (headText n ++ body) (headLexemes ((List.range n).map TyVar.name) ++ ls) := by
  unfold headText headLexemes
  by_cases hn : n = 0
  · subst hn
    exact h
  · have hforAll : ReadsAs "forall" [(.forAll, "forall")] := ReadsAs.reserved rfl
    have hdot : ReadsAs "." [(.dot, ".")] := ReadsAs.sign (c := '.') (by decide) rfl
    have hnames : ReadsAs (namesText n) (((List.range n).map TyVar.name).map (Prod.mk .ident)) := by
      rw [namesText_eq]
      refine readsAs_names fun x hx => ?_
      obtain ⟨i, -, rfl⟩ := List.mem_map.1 hx
      exact TyVar.isOne_name i
    have hstop : ∀ rest, Source.Stops (.ofString ("." ++ " " ++ body) ++ rest) := by
      intro rest
      rw [Source.ofString_append, Source.ofString_append, List.append_assoc, List.append_assoc]
      exact Source.stops_cons (by decide)
    have htext : "forall" ++ namesText n ++ ". " ++ body =
        "forall" ++ (namesText n ++ ("." ++ " " ++ body)) := by
      have hblank : ". " = "." ++ " " := by decide
      rw [hblank]
      simp only [String.append_assoc]
    have htail := hnames.append (hdot.spaced h) fun rest _ => hstop rest
    have hall := hforAll.append htail fun rest _ => by
      rw [Source.ofString_append, List.append_assoc, namesText_eq]
      exact stops_names _ (hstop rest)
    rw [if_neg hn, htext, if_neg (by simpa using hn)]
    simpa using hall

/-! ### New numbers -/

/-- The free variables in the order of their first occurrence. -/
def freeOrder (s : Scheme) : List TyVar := (s.body.occurrences.filter (· ∉ s.vars)).eraseDups

/-- The variables of a scheme in the order in which the parser meets their names. -/
def roll (s : Scheme) : List TyVar := s.order ++ s.freeOrder

/-- The number that a variable has after the scheme has been written and read. -/
def renumber (s : Scheme) (v : TyVar) : TyVar := .ofNat (s.roll.idxOf v)

theorem mem_freeOrder : v ∈ s.freeOrder ↔ v ∈ s.free := by
  rw [freeOrder, List.mem_eraseDups, List.mem_filter, decide_eq_true_iff, mem_free]

theorem mem_roll : v ∈ s.roll ↔ s.Mentions v := by
  rw [roll, List.mem_append, mem_order, mem_freeOrder, mem_free, Mentions]
  by_cases hv : v ∈ s.vars <;> simp [hv]

theorem nodup_roll (s : Scheme) : s.roll.Nodup := by
  refine List.nodup_append.2 ⟨s.nodup_order, nodup_eraseDups _, fun v hv w hw => ?_⟩
  rintro rfl
  exact (mem_free.1 (mem_freeOrder.1 hw)).2 (mem_order.1 hv)

/-- There are no more variables than numbers, so different variables get different numbers. -/
theorem apart_renumber (s : Scheme) : s.Apart s.renumber :=
  (TyVar.ofNat_idxOf_injOn (TyVar.length_le_of_nodup s.nodup_roll)).mono fun _ hv => mem_roll.2 hv

theorem roster_nameIn (s : Scheme) :
    roster (s.order.map (nameIn s.order)) (s.body.occurrences.map (nameIn s.order)) =
      s.roll.map (nameIn s.order) := by
  have hfilter :
      (s.body.occurrences.map (nameIn s.order)).filter (· ∉ s.order.map (nameIn s.order)) =
        (s.body.occurrences.filter (· ∉ s.vars)).map (nameIn s.order) := by
    rw [List.filter_map]
    refine congrArg _ (List.filter_congr fun v _ => ?_)
    simp only [Function.comp_apply, List.mem_map_of_injective (nameIn_injective s.order), mem_order]
  rw [roster, hfilter, eraseDups_map (nameIn_injective s.order).injOn, roll, freeOrder,
    List.map_append]

theorem numberIn_roll (s : Scheme) (v : TyVar) :
    numberIn (s.roll.map (nameIn s.order)) (nameIn s.order v) = s.renumber v := by
  rw [numberIn, renumber, idxOf_map fun w _ he => nameIn_injective s.order he]

/-- The written form is read as the scheme with its new numbers. -/
theorem parse_text (hs : s.body.Writable) (hpos : ∀ v ∈ s.body.occurrences, 0 ≤ v) :
    parse (.ofString s.text) = .ok (s.rename s.renumber) := by
  obtain ⟨ls, hls, hidents, hD⟩ := (hs.readsFrom fun v hv => isOne_nameIn hpos hv).1
  have hreads := (readsAs_head s.vars.size hls).reads
  rw [← text_eq, ← map_nameIn_order] at hreads
  -- the written names are different, so none of those after `forall` is dropped as a repetition
  have hnodup : (s.order.map (nameIn s.order)).Nodup :=
    s.nodup_order.map (nameIn_injective s.order)
  have hderives := derives_head hnodup (hD _)
  rw [parse_of_derives hreads hderives, hidents, roster_nameIn]
  have hbody : s.body.rename (fun v => numberIn (s.roll.map (nameIn s.order)) (nameIn s.order v)) =
      s.body.rename s.renumber := Ty.rename_congr fun v _ => s.numberIn_roll v
  have hprefix : s.order.map (nameIn s.order) <+: s.roll.map (nameIn s.order) :=
    (List.prefix_append ..).map _
  have hvars : VarSet.ofList ((s.order.map (nameIn s.order)).map
      (numberIn (s.order.map (nameIn s.order)))) = s.vars.map s.renumber := by
    ext x
    simp only [VarSet.mem_ofList, VarSet.mem_map, List.map_map, List.mem_map, mem_order,
      Function.comp_apply]
    refine exists_congr fun v => and_congr_right fun hv => ?_
    rw [numberIn_stable hprefix (List.mem_map_of_mem (mem_order.2 hv)), numberIn_roll]
  rw [forAll, hbody, hvars]
  rfl

/-! ### Schemes that were read -/

namespace NumberedBy
variable {xs : List String} {x : String}

theorem mem_vars (h : s.NumberedBy qs xs) (hx : x ∈ qs) : numberIn (roster qs xs) x ∈ s.vars := by
  rw [h.vars, VarSet.mem_ofList, ← numberIn_stable (prefix_roster ..) hx]
  exact List.mem_map_of_mem hx

theorem number_getElem (h : s.NumberedBy qs xs) {k : Nat} (hk : k < (roster qs xs).length) :
    numberIn (roster qs xs) (roster qs xs)[k] = .ofNat k := by
  rw [numberIn, (nodup_roster h.nodup xs).idxOf_getElem]

theorem exists_of_free (h : s.NumberedBy qs xs) (hv : v ∈ s.free) :
    ∃ x ∈ xs, x ∉ qs ∧ numberIn (roster qs xs) x = v := by
  obtain ⟨hv, hq⟩ := mem_free.1 hv
  rw [h.occurrences] at hv
  obtain ⟨x, hx, rfl⟩ := List.mem_map.1 hv
  exact ⟨x, hx, fun hxq => hq (h.mem_vars hxq), rfl⟩

/-- If as many names are quantified as there are numbers, then no number is left for a free one. -/
theorem length_lt_of_free (h : s.NumberedBy qs xs) (hv : v ∈ s.free) : qs.length < 2 ^ 64 := by
  obtain ⟨x, -, -, rfl⟩ := h.exists_of_free hv
  by_contra hlen
  -- the quantified name at that place has the number of `x`
  have hk : (roster qs xs).idxOf x % 2 ^ 64 < qs.length := by omega
  have hk' := Nat.lt_of_lt_of_le hk (prefix_roster qs xs).length_le
  have hmem := h.mem_vars ((prefix_roster qs xs).getElem hk ▸ List.getElem_mem hk)
  rw [h.number_getElem hk', TyVar.ofNat_mod] at hmem
  exact (mem_free.1 hv).2 hmem

/-- The numbers of the free names come one after the other, so if none is negative they do not wrap
around. -/
theorem length_le_of_free (h : s.NumberedBy qs xs) (hpos : ∀ v ∈ s.body.occurrences, 0 ≤ v)
    (hv : v ∈ s.free) : (roster qs xs).length ≤ 2 ^ 63 := by
  have hlen := h.length_lt_of_free hv
  have hroom : qs.length < (roster qs xs).length := by
    obtain ⟨x, hx, hxq, -⟩ := h.exists_of_free hv
    by_contra hle
    have heq := (prefix_roster qs xs).eq_of_length_le (Nat.not_lt.1 hle)
    exact hxq (heq.symm ▸ mem_roster.2 (.inr hx))
  have hsmall : ∀ k, qs.length ≤ k → k < (roster qs xs).length → k % 2 ^ 64 < 2 ^ 63 := by
    intro k hqk hk
    refine TyVar.ofNat_nonneg_iff.1 (h.number_getElem hk ▸ hpos _ ?_)
    have hxq : (roster qs xs)[k] ∉ qs := by
      intro hmem
      have hidx : (roster qs xs).idxOf (roster qs xs)[k] = qs.idxOf (roster qs xs)[k] :=
        List.idxOf_append_of_mem hmem
      have hlt := List.idxOf_lt_length_of_mem hmem
      rw [(nodup_roster h.nodup xs).idxOf_getElem] at hidx
      omega
    rw [h.occurrences]
    exact List.mem_map_of_mem ((mem_roster.1 (List.getElem_mem hk)).resolve_left hxq)
  by_contra hwrap
  -- the first place after the quantified names whose number is negative
  have hlast := hsmall (max qs.length (2 ^ 63)) (Nat.le_max_left ..) (by omega)
  omega

theorem freeOrder_eq (h : s.NumberedBy qs xs) (hlen : (roster qs xs).length ≤ 2 ^ 64) :
    s.freeOrder = (xs.filter (· ∉ qs)).eraseDups.map (numberIn (roster qs xs)) := by
  have hinj : Set.InjOn (numberIn (roster qs xs)) {x | x ∈ roster qs xs} :=
    TyVar.ofNat_idxOf_injOn hlen
  have hmem : ∀ x ∈ xs, numberIn (roster qs xs) x ∈ s.vars ↔ x ∈ qs := by
    refine fun x hx => ⟨fun hv => ?_, h.mem_vars⟩
    rw [h.vars, VarSet.mem_ofList] at hv
    obtain ⟨y, hy, he⟩ := List.mem_map.1 hv
    rw [numberIn_stable (prefix_roster qs xs) hy] at he
    exact hinj (mem_roster.2 (.inl hy)) (mem_roster.2 (.inr hx)) he ▸ hy
  have hfilter : s.body.occurrences.filter (· ∉ s.vars) =
      (xs.filter (· ∉ qs)).map (numberIn (roster qs xs)) := by
    rw [h.occurrences, List.filter_map]
    refine congrArg _ (List.filter_congr fun x hx => ?_)
    simp only [Function.comp_apply, hmem x hx]
  rw [freeOrder, hfilter, eraseDups_map]
  exact hinj.mono fun x hx => mem_roster.2 (.inr (List.mem_of_mem_filter hx))

theorem size_vars (h : s.NumberedBy qs xs) (hlen : qs.length ≤ 2 ^ 64) :
    s.vars.size = qs.length := by
  have hinj : Set.InjOn (numberIn qs) {x | x ∈ qs} := TyVar.ofNat_idxOf_injOn hlen
  rw [h.vars, VarSet.size_ofList (h.nodup.map_on fun x hx y hy he => hinj hx hy he), List.length_map]

/-- The free variables of a scheme that was read are numbered in the order of their occurrence. -/
theorem renumber_eq (h : s.NumberedBy qs xs) (hpos : ∀ v ∈ s.body.occurrences, 0 ≤ v)
    (hv : v ∈ s.free) : s.renumber v = v := by
  have hlen : (roster qs xs).length ≤ 2 ^ 64 :=
    Nat.le_trans (h.length_le_of_free hpos hv) (by decide)
  have hqs : qs.length ≤ 2 ^ 64 := (prefix_roster qs xs).length_le.trans hlen
  have hnew : v ∉ s.order := fun h => (mem_free.1 hv).2 (mem_order.1 h)
  obtain ⟨x, hx, hxq, rfl⟩ := h.exists_of_free hv
  have hmem : ∀ y ∈ (xs.filter (· ∉ qs)).eraseDups, y ∈ roster qs xs :=
    fun y hy => List.mem_append_right _ hy
  have hidx : (roster qs xs).idxOf x = qs.length + (xs.filter (· ∉ qs)).eraseDups.idxOf x :=
    List.idxOf_append_of_notMem hxq
  have hinj : Set.InjOn (numberIn (roster qs xs)) {x | x ∈ roster qs xs} :=
    TyVar.ofNat_idxOf_injOn hlen
  rw [renumber, roll, List.idxOf_append_of_notMem hnew, length_order, h.size_vars hqs,
    h.freeOrder_eq hlen, idxOf_map fun y hy he => hinj (hmem y hy) (mem_roster.2 (.inr hx)) he,
    ← hidx]
  rfl

theorem nonneg (h : s.NumberedBy qs xs) (hlen : qs.length + xs.length < 2 ^ 63)
    (hv : v ∈ s.body.occurrences) : 0 ≤ v := by
  rw [h.occurrences] at hv
  obtain ⟨x, hx, rfl⟩ := List.mem_map.1 hv
  have hidx := List.idxOf_lt_length_of_mem (mem_roster.2 (.inr hx) : x ∈ roster qs xs)
  have hroster := length_roster_le qs xs
  exact TyVar.ofNat_nonneg_iff.2 (by omega)

end NumberedBy

/-- The written form of a scheme is read as that scheme, up to the names of its quantified variables
and an injective renaming of its free ones. If the scheme was itself read from a source, its free
variables stay the same, and so does its written form. Whatever is read from a source of a size that a
number can count can be written. -/
theorem parse_text_up_to_renaming :
    (∀ s : Scheme, s.body.Writable → (∀ v ∈ s.body.occurrences, 0 ≤ v) →
      ∃ s', parse (.ofString s.text) = .ok s' ∧
        (∃ r, Set.InjOn r {v | v ∈ s.free} ∧ (∃ t, s.Renamed r t) ∧
          ∀ t, s.Renamed r t → t.equivalent s' = true) ∧
        ∀ src, parse src = .ok s → s.equivalent s' = true ∧ s'.text = s.text) ∧
    ∀ (src : Source) (s : Scheme), src.width < 2 ^ 63 → parse src = .ok s →
      s.body.Writable ∧ ∀ v ∈ s.body.occurrences, 0 ≤ v := by
  constructor
  · intro s hs hpos
    refine ⟨_, parse_text hs hpos, ⟨s.renumber, ?_, ?_, ?_⟩, fun src hsrc => ?_⟩
    · exact s.apart_renumber.mono fun v hv => .inr (mem_free.1 hv).1
    · exact ⟨_, s.renumber, s.apart_renumber, fun _ _ => rfl, rfl⟩
    · rintro t ⟨ρ, hρ, hfree, rfl⟩
      exact equivalent_rename hs.wellFormed hρ s.apart_renumber hfree
    · obtain ⟨qs, xs, h, -⟩ := numbered_of_parse hsrc
      have hfree : ∀ v ∈ s.free, s.renumber v = v := fun v hv => h.renumber_eq hpos hv
      have hid : s.Apart id := Set.injOn_id _
      have hequiv :=
        equivalent_rename hs.wellFormed hid s.apart_renumber fun v hv => (hfree v hv).symm
      rw [rename_id] at hequiv
      exact ⟨hequiv, text_rename s.apart_renumber hfree⟩
  · intro src s hwidth hsrc
    obtain ⟨qs, xs, h, hlen⟩ := numbered_of_parse hsrc
    have hlength := src.length_le_width
    exact ⟨writable_of_parse hsrc, fun v hv => h.nonneg (by omega) hv⟩

/-- A scheme with a free variable, and with a quantified one that does not occur in the body. What is
read from its written form is written and read once more. -/
theorem parse_text_up_to_renaming_vacuous :
    ∃ s s' s'' : Scheme,
      s = forAll [1, 3] (.arrow (.arrow (.var 1) (.var 5)) (.app "List" [.var 1])) ∧
      s.text = "forall a b. (a -> t5) -> List a" ∧
      s.body.Writable ∧ (∀ v ∈ s.body.occurrences, 0 ≤ v) ∧ parse (.ofString s.text) = .ok s' ∧
      (∃ r, Set.InjOn r {v | v ∈ s.free} ∧ (∃ t, s.Renamed r t) ∧
        ∀ t, s.Renamed r t → t.equivalent s' = true) ∧
      parse (.ofString s'.text) = .ok s'' ∧ s'.equivalent s'' = true ∧ s''.text = s'.text := by
  have hList : Token.IsOne .capIdent "List" :=
    (Token.isOne_iff rfl).2
      ⟨⟨'L', ['i', 's', 't'], rfl, by decide, rfl, by decide, by decide⟩, by decide⟩
  have hs : (forAll [1, 3] (.arrow (.arrow (.var 1) (.var 5)) (.app "List" [.var 1]))).body.Writable :=
    .arrow (.arrow (.var 1) (.var 5)) (.app hList fun t ht => List.mem_singleton.1 ht ▸ .var 1)
  have htext : (forAll [1, 3] (.arrow (.arrow (.var 1) (.var 5)) (.app "List" [.var 1]))).text =
      "forall a b. (a -> t5) -> List a" := by decide
  have hpos : ∀ v ∈ (forAll [1, 3] (.arrow (.arrow (.var 1) (.var 5))
      (.app "List" [.var 1]))).body.occurrences, 0 ≤ v := by
    intro v hv
    have hv : v ∈ [1, 5, 1] := hv
    simp only [List.mem_cons, List.not_mem_nil, or_false] at hv
    obtain rfl | rfl | rfl := hv <;> decide
  obtain ⟨s', hparse, hrenamed, -⟩ := parse_text_up_to_renaming.1 _ hs hpos
  have hwidth : (Source.ofString (forAll [1, 3] (.arrow (.arrow (.var 1) (.var 5))
      (.app "List" [.var 1]))).text).width < 2 ^ 63 := by
    rw [htext]
    decide
  obtain ⟨hs', hpos'⟩ := parse_text_up_to_renaming.2 _ s' hwidth hparse
  obtain ⟨s'', hparse', -, hagain⟩ := parse_text_up_to_renaming.1 s' hs' hpos'
  obtain ⟨hequiv, htext'⟩ := hagain _ hparse
  exact ⟨_, s', s'', rfl, htext, hs, hpos, hparse, hrenamed, hparse', hequiv, htext'⟩

end Scheme

end LetPoly
