/-!
# Signatures

An instruction can be asked for by its mnemonic with a list of operands. Each
mnemonic has a procedure with named parameters, and a list of another length is
refused. The machine itself counts as the first argument of every procedure.
-/

namespace ChipEight

structure Signature where
  procedure : String
  parameters : List String
  deriving DecidableEq

namespace Signature

def ofMnemonic? : String → Option Signature
  | "CLS" => some ⟨"CPU.cpu_clear_screen", []⟩
  | "RET" => some ⟨"CPU.cpu_return_from_subroutine", []⟩
  | "SYS" => some ⟨"CPU.cpu_system_call", ["cpu_address"]⟩
  | "JP" => some ⟨"CPU.cpu_jump_to_address", ["cpu_address"]⟩
  | "CALL" => some ⟨"CPU.cpu_jump_to_subroutine", ["cpu_address"]⟩
  | "SE_BYTE" => some ⟨"CPU.cpu_skip_if_reg_equal_val", ["cpu_source", "cpu_value"]⟩
  | "SNE_BYTE" => some ⟨"CPU.cpu_skip_if_reg_not_equal_val", ["cpu_source", "cpu_value"]⟩
  | "SE_REG" => some ⟨"CPU.cpu_skip_if_reg_equal_reg", ["cpu_source", "cpu_target"]⟩
  | "LD_BYTE" => some ⟨"CPU.cpu_move_value_to_reg", ["cpu_target", "cpu_value"]⟩
  | "ADD_BYTE" => some ⟨"CPU.cpu_add_value_to_reg", ["cpu_target", "cpu_value"]⟩
  | "LD_REG" => some ⟨"CPU.cpu_move_reg_into_reg", ["cpu_target", "cpu_source"]⟩
  | "OR" => some ⟨"CPU.cpu_logical_or", ["cpu_target", "cpu_source"]⟩
  | "AND" => some ⟨"CPU.cpu_logical_and", ["cpu_target", "cpu_source"]⟩
  | "XOR" => some ⟨"CPU.cpu_exclusive_or", ["cpu_target", "cpu_source"]⟩
  | "ADD_REG" => some ⟨"CPU.cpu_add_reg_to_reg", ["cpu_target", "cpu_source"]⟩
  | "SUB" => some ⟨"CPU.cpu_subtract_reg_from_reg", ["cpu_target", "cpu_source"]⟩
  | "SHR" => some ⟨"CPU.cpu_right_shift_reg", ["cpu_source", "cpu_unused"]⟩
  | "SUBN" => some ⟨"CPU.cpu_subtract_reg_from_reg1", ["cpu_target", "cpu_source"]⟩
  | "SHL" => some ⟨"CPU.cpu_left_shift_reg", ["cpu_source", "cpu_unused"]⟩
  | "SNE_REG" => some ⟨"CPU.cpu_skip_if_reg_not_equal_reg", ["cpu_source", "cpu_target"]⟩
  | "LD_INDEX" => some ⟨"CPU.cpu_load_index_reg_with_value", ["cpu_address"]⟩
  | "JP_V0" => some ⟨"CPU.cpu_jump_to_v0_plus_value", ["cpu_address"]⟩
  | "RND" => some ⟨"CPU.cpu_generate_random_number", ["cpu_target", "cpu_value"]⟩
  | "DRW" => some ⟨"CPU.cpu_draw_sprite", ["cpu_x_source", "cpu_y_source", "cpu_num_bytes"]⟩
  | "SKP" => some ⟨"CPU.cpu_skip_if_key_pressed", ["cpu_source"]⟩
  | "SKNP" => some ⟨"CPU.cpu_skip_if_key_not_pressed", ["cpu_source"]⟩
  | "LD_DELAY" => some ⟨"CPU.cpu_move_delay_timer_into_reg", ["cpu_target"]⟩
  | "LD_KEY" => some ⟨"CPU.cpu_wait_for_keypress", ["cpu_target"]⟩
  | "SET_DELAY" => some ⟨"CPU.cpu_move_reg_into_delay_timer", ["cpu_source"]⟩
  | "SET_SOUND" => some ⟨"CPU.cpu_move_reg_into_sound_timer", ["cpu_source"]⟩
  | "ADD_INDEX" => some ⟨"CPU.cpu_add_reg_into_index", ["cpu_source"]⟩
  | "LD_FONT" => some ⟨"CPU.cpu_load_index_with_reg_sprite", ["cpu_source"]⟩
  | "BCD" => some ⟨"CPU.cpu_store_bcd_in_memory", ["cpu_source"]⟩
  | "STORE" => some ⟨"CPU.cpu_store_regs_in_memory", ["cpu_source"]⟩
  | "LOAD" => some ⟨"CPU.cpu_read_regs_from_memory", ["cpu_source"]⟩
  | _ => none

/-- The ending of a noun that is counted. -/
def plural (count : Nat) : String := if count = 1 then "" else "s"

def quotedName (name : String) : String := "'" ++ name ++ "'"

/-- Names one after the other, the last one behind an "and"; from three names on
there are commas as well. -/
def listed (names : List String) : String :=
  match names.map quotedName with
  | [] => ""
  | [a] => a
  | [a, b] => a ++ " and " ++ b
  | all => String.intercalate ", " all.dropLast ++ ", and " ++ all.getLastD ""

def accepts (s : Signature) (operands : List Int) : Bool :=
  operands.length = s.parameters.length

/-- What is said about operands that are too many or too few. -/
def complaint (s : Signature) (given : Nat) : String :=
  let wanted := s.parameters.length
  if wanted < given then
    s.procedure ++ "() takes " ++ toString (wanted + 1) ++ " positional argument" ++
      plural (wanted + 1) ++ " but " ++ toString (given + 1) ++ " were given"
  else
    s.procedure ++ "() missing " ++ toString (wanted - given) ++
      " required positional argument" ++ plural (wanted - given) ++ ": " ++
      listed (s.parameters.drop given)

end Signature
end ChipEight
