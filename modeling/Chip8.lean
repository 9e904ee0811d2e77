import Chip8.Main
import Chip8.Proofs.Machine.Atomicity
import Chip8.Proofs.Machine.CallStack
import Chip8.Proofs.Machine.Commutation
import Chip8.Proofs.Host.FrameRate
import Chip8.Proofs.Machine.IndexTaint
import Chip8.Proofs.Launch
import Chip8.Proofs.Machine.FlaggedArithmetic
import Chip8.Proofs.Machine.Redrawing
import Chip8.Proofs.Machine.BlockTransfer
import Chip8.Proofs.Memory.LastWrite
import Chip8.Proofs.Memory.Block
import Chip8.Proofs.Machine.Dispatch
import Chip8.Proofs.Clock.Polling
import Chip8.Proofs.Registers.Dump
import Chip8.Proofs.Display.Views
import Chip8.Proofs.Window.Delivery
