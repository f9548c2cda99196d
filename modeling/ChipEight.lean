import ChipEight.Main
import ChipEight.Operation
import ChipEight.Screen.Sized
import ChipEight.Proofs.Decode
import ChipEight.Proofs.Perform
import ChipEight.Proofs.Operations
import ChipEight.Proofs.Bounds
import ChipEight.Proofs.Faults
import ChipEight.Proofs.TwelveBits
import ChipEight.Proofs.Calls
import ChipEight.Proofs.Plays
import ChipEight.Proofs.Restart
import ChipEight.Proofs.Tables
import ChipEight.Proofs.Merging
import ChipEight.Proofs.Documents
import ChipEight.Proofs.Acceptance
import ChipEight.Proofs.Rendering
import ChipEight.Proofs.Sessions
import ChipEight.Proofs.Footprints
import ChipEight.Proofs.Interleaving
import ChipEight.Proofs.Arguments
import ChipEight.Proofs.Precedence
import ChipEight.Proofs.Containment
import ChipEight.Proofs.Deeds
import ChipEight.Proofs.Timers
import ChipEight.Proofs.RandomNumbers
import ChipEight.Proofs.KeyWaits
import ChipEight.Proofs.Sprites
import ChipEight.Proofs.Overdrawing
import ChipEight.Proofs.DrawOpcodes
import ChipEight.Proofs.FlagArithmetic
import ChipEight.Proofs.RegisterBlocks
import ChipEight.Proofs.LastWriters
import ChipEight.Proofs.ControlFlow
import ChipEight.Proofs.Logs
import ChipEight.Proofs.Alignment
import ChipEight.Proofs.Overrides
import ChipEight.Proofs.Remerging
import ChipEight.Proofs.PixelAccess
import ChipEight.Proofs.KeyEvents
import ChipEight.Proofs.KeypadCalls
import ChipEight.Proofs.SoundReports
import ChipEight.Proofs.Squares
import ChipEight.Proofs.Windows
import ChipEight.Proofs.Loading
import ChipEight.Proofs.ArgumentOrder
import ChipEight.Proofs.DumpReading
