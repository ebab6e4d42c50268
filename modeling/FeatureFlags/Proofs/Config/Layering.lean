import FeatureFlags.Config.Source
import Mathlib.Data.List.Basic
import Mathlib.Data.List.MinMax
import Mathlib.Data.List.Nodup

/-!
# Proofs/Config/Layering — of several sources the one of the greatest precedence decides

`Layer.value?` reads a layer setting by setting, and a layer is known by its values (`Layer.ext_value?`).
So layers form a monoid (`Layer.overlay_assoc`), and of layers that are put over each other the last one
that says a setting decides it (`Layer.value?_stack`).  Sources of different precedences have one order
(`Settings.inOrder_congr`), so `Settings.ofSources` gives the same whatever the order in which they are
named (`Settings.ofSources_layered`).
-/

namespace FeatureFlags

/-! ## Layers, setting by setting -/

/-- **What a setting can be set to.** -/
inductive SettingValue
  | text (s : String)
  | number (n : Nat)
  | switch (b : Bool)
  deriving DecidableEq

namespace SettingValue

theorem map_orElse {α : Type} (f : α → SettingValue) (upper base : Option α) :
    (upper <|> base).map f = (upper.map f).or (base.map f) := by
  cases upper <;> rfl

theorem map_text_injective : Function.Injective (Option.map text) :=
  Option.map_injective fun _ _ => text.inj

theorem map_number_injective : Function.Injective (Option.map number) :=
  Option.map_injective fun _ _ => number.inj

theorem map_switch_injective : Function.Injective (Option.map switch) :=
  Option.map_injective fun _ _ => switch.inj

end SettingValue

namespace Layer

/-- **What a layer says of a setting.** -/
def value? (l : Layer) : Setting → Option SettingValue
  | .host => l.host.map .text
  | .port => l.port.map .number
  | .tls => l.tls.map .switch
  | .certPath => l.certPath.map .text
  | .selector => l.selector.map .text
  | .providerId => l.providerId.map .text
  | .deadline => l.deadline.map .number
  | .streamDeadline => l.streamDeadline.map .number
  | .retryBackoff => l.retryBackoff.map .number
  | .retryBackoffMax => l.retryBackoffMax.map .number
  | .retryJitter => l.retryJitter.map .number
  | .keepAlive => l.keepAlive.map .number
  | .offlineFlagSourcePath => l.offlineFlagSourcePath.map .text
  | .offlinePollInterval => l.offlinePollInterval.map .number
  | .syncMetadataDisabled => l.syncMetadataDisabled.map .switch
  | .throwIfInvalid => l.throwIfInvalid.map .switch
  | .shutdownGrace => l.shutdownGrace.map .number

theorem value?_empty (setting : Setting) : (∅ : Layer).value? setting = none := by
  cases setting <;> rfl

/-- **What the upper layer says stands**, and what it leaves open is left to the base. -/
theorem value?_overlay (base upper : Layer) (setting : Setting) :
    (base.overlay upper).value? setting = (upper.value? setting).or (base.value? setting) := by
  cases setting <;> exact SettingValue.map_orElse ..

/-- **A layer is known by what it says.** -/
theorem ext_value? {l l' : Layer} (h : ∀ setting, l.value? setting = l'.value? setting) : l = l' := by
  obtain ⟨⟩ := l
  obtain ⟨⟩ := l'
  have htext {s s' : Option String} (h : s.map SettingValue.text = s'.map .text) : s = s' :=
    SettingValue.map_text_injective h
  have hnumber {n n' : Option Nat} (h : n.map SettingValue.number = n'.map .number) : n = n' :=
    SettingValue.map_number_injective h
  have hswitch {b b' : Option Bool} (h : b.map SettingValue.switch = b'.map .switch) : b = b' :=
    SettingValue.map_switch_injective h
  rw [mk.injEq]
  exact ⟨htext (h .host), hnumber (h .port), hswitch (h .tls), htext (h .certPath),
    htext (h .selector), htext (h .providerId), hnumber (h .deadline), hnumber (h .streamDeadline),
    hnumber (h .retryBackoff), hnumber (h .retryBackoffMax), hnumber (h .retryJitter),
    hnumber (h .keepAlive), htext (h .offlineFlagSourcePath), hnumber (h .offlinePollInterval),
    hswitch (h .syncMetadataDisabled), hswitch (h .throwIfInvalid), hnumber (h .shutdownGrace)⟩

theorem empty_overlay (l : Layer) : (∅ : Layer).overlay l = l :=
  ext_value? fun setting => by rw [value?_overlay, value?_empty, Option.or_none]

theorem overlay_empty (l : Layer) : l.overlay ∅ = l :=
  ext_value? fun setting => by rw [value?_overlay, value?_empty, Option.none_or]

theorem overlay_assoc (a b c : Layer) : (a.overlay b).overlay c = a.overlay (b.overlay c) :=
  ext_value? fun setting => by
    rw [value?_overlay, value?_overlay, value?_overlay, value?_overlay, Option.or_assoc]

/-! ### Layers over each other -/

/-- **Layers, each over the ones before it.** -/
def stack (layers : List Layer) : Layer := layers.foldl overlay ∅

theorem foldl_overlay (base : Layer) (layers : List Layer) :
    layers.foldl overlay base = base.overlay (stack layers) := by
  induction layers generalizing base with
  | nil => exact (overlay_empty base).symm
  | cons l rest ih => rw [stack, List.foldl_cons, List.foldl_cons, ih, ih, empty_overlay, overlay_assoc]

theorem stack_cons (l : Layer) (rest : List Layer) : stack (l :: rest) = l.overlay (stack rest) := by
  rw [stack, List.foldl_cons, empty_overlay, foldl_overlay]

theorem stack_append (layers upper : List Layer) :
    stack (layers ++ upper) = (stack layers).overlay (stack upper) := by
  rw [stack, List.foldl_append, foldl_overlay, ← stack]

/-- **The last layer that says a setting decides it.** -/
theorem value?_stack (layers : List Layer) (setting : Setting) :
    (stack layers).value? setting = layers.reverse.findSome? (·.value? setting) := by
  induction layers with
  | nil => exact value?_empty setting
  | cons l rest ih =>
    rw [stack_cons, value?_overlay, ih, List.reverse_cons, List.findSome?_append,
      List.findSome?_singleton]

/-- **How layers are grouped does not matter.** -/
theorem stack_map_stack (groups : List (List Layer)) :
    stack (groups.map stack) = stack groups.flatten := by
  induction groups with
  | nil => rfl
  | cons group rest ih => rw [List.map_cons, List.flatten_cons, stack_cons, ih, stack_append]

end Layer

/-! ## Sources -/

namespace ConfigSource

/-- **The source can be loaded.** -/
def Loads (source : ConfigSource) : Prop := ∃ layer, source.load = .ok layer

/-- The layer of a source; of one that cannot be loaded, the empty one. -/
def layer (source : ConfigSource) : Layer := source.load.toOption.getD ∅

theorem Loads.load_eq {source : ConfigSource} (h : source.Loads) : source.load = .ok source.layer := by
  obtain ⟨layer, hload⟩ := h
  rw [ConfigSource.layer, hload]
  rfl

end ConfigSource

/-- **A layer combines sources**: of those that say a setting the one of the greatest precedence decides
it, and what none of them says is left open. -/
structure Layer.Combines (l : Layer) (sources : List ConfigSource) : Prop where
  decided : ∀ setting, ∀ source ∈ sources, ∀ value, source.layer.value? setting = some value →
    (∀ other ∈ sources, source.precedence < other.precedence → other.layer.value? setting = none) →
    l.value? setting = some value
  unset : ∀ setting, (∀ source ∈ sources, source.layer.value? setting = none) →
    l.value? setting = none

/-- **Sources are combined in one way.** -/
theorem Layer.Combines.unique {l l' : Layer} {sources : List ConfigSource} (h : l.Combines sources)
    (h' : l'.Combines sources) : l = l' := by
  refine Layer.ext_value? fun setting => ?_
  let saying := sources.filter fun source => (source.layer.value? setting).isSome
  rcases hgreatest : saying.argmax (·.precedence) with _ | source
  · have hopen : ∀ source ∈ sources, source.layer.value? setting = none := by
      intro source hmem
      have hsilent := List.filter_eq_nil_iff.mp (List.argmax_eq_none.mp hgreatest) source hmem
      exact Option.not_isSome_iff_eq_none.mp hsilent
    rw [h.unset setting hopen, h'.unset setting hopen]
  · obtain ⟨hmem, hsays⟩ := List.mem_filter.mp (List.argmax_mem hgreatest)
    obtain ⟨value, hvalue⟩ := Option.isSome_iff_exists.mp hsays
    have hgreater : ∀ other ∈ sources, source.precedence < other.precedence →
        other.layer.value? setting = none := by
      intro other hother hlt
      refine Option.not_isSome_iff_eq_none.mp fun hsome => ?_
      have hle := List.le_of_mem_argmax (List.mem_filter.mpr ⟨hother, hsome⟩) hgreatest
      exact absurd hlt (Nat.not_lt.mpr hle)
    rw [h.decided setting source hmem value hvalue hgreater,
      h'.decided setting source hmem value hvalue hgreater]

namespace Settings

/-! ### Loading in order -/

theorem merge_of_loads {sources : List ConfigSource} (h : ∀ source ∈ sources, source.Loads) :
    merge sources = .ok (.stack (sources.map (·.layer))) := by
  rw [merge, Layer.stack]
  generalize (∅ : Layer) = base
  induction sources generalizing base with
  | nil => rfl
  | cons source rest ih =>
    obtain ⟨hsource, hrest⟩ := List.forall_mem_cons.mp h
    rw [List.foldlM_cons, hsource.load_eq, List.map_cons, List.foldl_cons]
    exact ih hrest _

/-- **The first source that cannot be loaded decides.** -/
theorem merge_of_error {before after : List ConfigSource} {failing : ConfigSource} {e : ConfigError}
    (hbefore : ∀ source ∈ before, source.Loads) (hfailing : failing.load = .error e) :
    merge (before ++ failing :: after) = .error e := by
  rw [merge, List.foldlM_append, ← merge, merge_of_loads hbefore]
  refine (pure_bind _ _).trans ?_
  rw [List.foldlM_cons, hfailing]
  rfl

/-- Settings that are accepted, or what is wrong with them. -/
def checked (s : Settings) : Except ConfigError Settings :=
  match s.fault? with
  | some fault => .error (.unusable fault)
  | none => .ok s

theorem ofSources_of_ok {sources : List ConfigSource} {l : Layer} (h : merge (inOrder sources) = .ok l) :
    ofSources sources = l.settle.checked := by
  rw [ofSources, h]
  rfl

theorem ofSources_of_error {sources : List ConfigSource} {e : ConfigError}
    (h : merge (inOrder sources) = .error e) : ofSources sources = .error e := by
  rw [ofSources, h]
  rfl

/-! ### The order of sources -/

variable {sources others : List ConfigSource}

theorem inOrder_perm (sources : List ConfigSource) : (inOrder sources).Perm sources :=
  List.mergeSort_perm _ _

theorem mem_inOrder {source : ConfigSource} : source ∈ inOrder sources ↔ source ∈ sources :=
  List.mem_mergeSort

/-- **Sources of different precedences are in strict order.** -/
theorem pairwise_inOrder (hdistinct : (sources.map (·.precedence)).Nodup) :
    (inOrder sources).Pairwise (·.precedence < ·.precedence) := by
  have htrans (a b c : ConfigSource) (hab : decide (a.precedence ≤ b.precedence) = true)
      (hbc : decide (b.precedence ≤ c.precedence) = true) :
      decide (a.precedence ≤ c.precedence) = true :=
    decide_eq_true (Nat.le_trans (of_decide_eq_true hab) (of_decide_eq_true hbc))
  have htotal (a b : ConfigSource) :
      (decide (a.precedence ≤ b.precedence) || decide (b.precedence ≤ a.precedence)) = true := by
    simp [Nat.le_total a.precedence b.precedence]
  have hle : (inOrder sources).Pairwise fun a b => decide (a.precedence ≤ b.precedence) = true :=
    List.pairwise_mergeSort htrans htotal sources
  have hne : (inOrder sources).Pairwise (·.precedence ≠ ·.precedence) :=
    List.pairwise_map.mp (((inOrder_perm sources).map _).nodup_iff.mpr hdistinct)
  exact (hle.and hne).imp fun h => Nat.lt_of_le_of_ne (of_decide_eq_true h.1) h.2

/-- **Their order does not depend on how they are named.** -/
theorem inOrder_congr (hdistinct : (sources.map (·.precedence)).Nodup) (hperm : others.Perm sources) :
    inOrder others = inOrder sources := by
  have hothers : (others.map (·.precedence)).Nodup := (hperm.map _).nodup_iff.mpr hdistinct
  refine List.Perm.eq_of_pairwise (fun a b _ _ hab hba => absurd hba (Nat.lt_asymm hab))
    (pairwise_inOrder hothers) (pairwise_inOrder hdistinct) ?_
  exact (inOrder_perm others).trans (hperm.trans (inOrder_perm sources).symm)

/-- A source stands after those of lesser precedence and before those of greater. -/
theorem exists_inOrder (hdistinct : (sources.map (·.precedence)).Nodup) {source : ConfigSource}
    (hmem : source ∈ sources) :
    ∃ before after, inOrder sources = before ++ source :: after ∧
      (∀ other ∈ before, other ∈ sources ∧ other.precedence < source.precedence) ∧
      ∀ other ∈ after, other ∈ sources ∧ source.precedence < other.precedence := by
  obtain ⟨before, after, heq⟩ := List.append_of_mem (mem_inOrder.mpr hmem)
  have hpairwise := pairwise_inOrder hdistinct
  rw [heq] at hpairwise
  obtain ⟨-, hafter, hbefore⟩ := List.pairwise_append.mp hpairwise
  refine ⟨before, after, heq, fun other hother => ⟨?_, ?_⟩, fun other hother => ⟨?_, ?_⟩⟩
  · exact mem_inOrder.mp (heq ▸ List.mem_append_left _ hother)
  · exact hbefore other hother source List.mem_cons_self
  · exact mem_inOrder.mp (heq ▸ List.mem_append_right _ (List.mem_cons_of_mem _ hother))
  · exact List.rel_of_pairwise_cons hafter hother

/-- **The layers of sources, in order, combine them.** -/
theorem combines_stack (hdistinct : (sources.map (·.precedence)).Nodup) :
    (Layer.stack ((inOrder sources).map (·.layer))).Combines sources where
  decided := by
    intro setting source hmem value hvalue hgreater
    obtain ⟨before, after, heq, -, hafter⟩ := exists_inOrder hdistinct hmem
    have hopen : (after.map (·.layer)).reverse.findSome? (·.value? setting) = none := by
      rw [List.findSome?_eq_none_iff]
      intro l hl
      obtain ⟨other, hother, rfl⟩ := List.mem_map.mp (List.mem_reverse.mp hl)
      exact hgreater other (hafter other hother).1 (hafter other hother).2
    rw [Layer.value?_stack, heq, List.map_append, List.map_cons, List.reverse_append,
      List.reverse_cons, List.findSome?_append, List.findSome?_append, hopen,
      List.findSome?_singleton, hvalue]
    rfl
  unset := by
    intro setting hopen
    rw [Layer.value?_stack, List.findSome?_eq_none_iff]
    intro l hl
    obtain ⟨source, hsource, rfl⟩ := List.mem_map.mp (List.mem_reverse.mp hl)
    exact hopen source (mem_inOrder.mp hsource)

/-! ### The settings -/

/-- **Layered settings.**  From sources of different precedences the settings are the same in whatever
order the sources are named.  A source that cannot be loaded decides if those of lesser precedence can be
loaded.  When all can be loaded the settings are those of the one layer that combines the sources, if they
are accepted.  Layers form a monoid, so how they are grouped does not matter. -/
theorem ofSources_layered (hdistinct : (sources.map (·.precedence)).Nodup) :
    (∀ others : List ConfigSource, others.Perm sources → ofSources others = ofSources sources) ∧
      (∀ source ∈ sources, ∀ e, source.load = .error e →
        (∀ other ∈ sources, other.precedence < source.precedence → other.Loads) →
        ofSources sources = .error e) ∧
      ((∀ source ∈ sources, source.Loads) →
        ∃ l : Layer, (∀ l' : Layer, l'.Combines sources ↔ l' = l) ∧
          ofSources sources = l.settle.checked) ∧
      (∀ a b c : Layer, (a.overlay b).overlay c = a.overlay (b.overlay c)) ∧
      (∀ l : Layer, (∅ : Layer).overlay l = l ∧ l.overlay ∅ = l) ∧
      ∀ groups : List (List Layer), Layer.stack (groups.map .stack) = .stack groups.flatten := by
  refine ⟨fun others hperm => ?_, fun source hmem e hload hlesser => ?_, fun hloads => ?_,
    Layer.overlay_assoc, fun l => ⟨Layer.empty_overlay l, Layer.overlay_empty l⟩,
    Layer.stack_map_stack⟩
  · rw [ofSources, ofSources, inOrder_congr hdistinct hperm]
  · obtain ⟨before, after, heq, hbefore, -⟩ := exists_inOrder hdistinct hmem
    refine ofSources_of_error ?_
    rw [heq]
    exact merge_of_error (fun other hother => hlesser other (hbefore other hother).1
      (hbefore other hother).2) hload
  · have hcombines := combines_stack hdistinct
    refine ⟨_, fun l' => ⟨fun h => h.unique hcombines, fun h => h ▸ hcombines⟩, ?_⟩
    exact ofSources_of_ok (merge_of_loads fun source hsource => hloads source (mem_inOrder.mp hsource))

/-- The environment names a port, a file a host and another port. -/
def environmentOverFile : List ConfigSource :=
  [.environment (KeyMap.ofList [("FLAGD_PORT", "9100")]), .defaults,
    .file (some "host = \"from-file\"\nport = 9000")]

theorem ofSources_layered_environment :
    (environmentOverFile.map (·.precedence)).Nodup ∧
      ofSources environmentOverFile.reverse = ofSources environmentOverFile ∧
      ∃ l : Layer, l.value? .port = some (.number 9100) ∧ l.value? .host = some (.text "from-file") ∧
        l.value? .tls = none ∧ ofSources environmentOverFile = l.settle.checked := by
  have hdistinct : (environmentOverFile.map (·.precedence)).Nodup := by decide
  obtain ⟨hperm, -, hsettings, -⟩ := ofSources_layered hdistinct
  have hloads : ∀ source ∈ environmentOverFile, source.Loads := by
    simp only [environmentOverFile, List.forall_mem_cons]
    refine ⟨⟨_, rfl⟩, ⟨_, rfl⟩, ⟨_, rfl⟩, ?_⟩
    simp
  obtain ⟨l, hunique, hl⟩ := hsettings hloads
  have hcombines := (hunique l).mpr rfl
  refine ⟨hdistinct, hperm _ (List.reverse_perm _), l, ?_, ?_, ?_, hl⟩
  · exact hcombines.decided .port _ List.mem_cons_self _ (by rfl) (by decide)
  · exact hcombines.decided .host _ (List.mem_of_mem_getLast? rfl) _ (by rfl) (by decide)
  · exact hcombines.unset .tls (by decide)

end Settings

end FeatureFlags
