import DmaMachine.CommandLine.Folder
import DmaMachine.Main
import DmaMachine.Proofs.Timeline.Exact
import DmaMachine.Proofs.Timeline.Failed
import DmaMachine.Proofs.Channel.Accesses
import DmaMachine.Rack
import DmaMachine.Snapshot.Dump
import DmaMachine.Timeline.Clockwork
import DmaMachine.Proofs.Engine.Service
import DmaMachine.Proofs.Machine.Trace
import DmaMachine.Proofs.Machine.Wakeup
import DmaMachine.Proofs.Machine.Accounts
import DmaMachine.Proofs.Machine.Grid
import DmaMachine.Proofs.Machine.Handles
import DmaMachine.Proofs.Channel.Attribution
import DmaMachine.Proofs.Channel.Delivery
import DmaMachine.Proofs.Channel.Programming
import DmaMachine.Proofs.Channel.Slices
import DmaMachine.Proofs.Channel.NodeLimit
import DmaMachine.Proofs.Channel.Tables
import DmaMachine.Proofs.Channel.Windows
import DmaMachine.Proofs.Machine.Table
import DmaMachine.Proofs.Machine.Punctual
import DmaMachine.Proofs.Machine.Pace
import DmaMachine.Proofs.Channel.Intact
import DmaMachine.Proofs.Snapshot.Image
import DmaMachine.Proofs.Machine.Snapshots
import DmaMachine.Proofs.Machine.Resumption
import DmaMachine.Proofs.Machine.Rises
import DmaMachine.Proofs.Channel.Live
import DmaMachine.Proofs.Engine.Order
import DmaMachine.Proofs.Engine.Tokens
import DmaMachine.Proofs.Bus.Banks
import DmaMachine.Proofs.Machine.Lanes
import DmaMachine.Proofs.Machine.MaskedWrites
import DmaMachine.Proofs.Channel.Bursts
import DmaMachine.Proofs.Channel.Filling
import DmaMachine.Proofs.Channel.Retries
import DmaMachine.Proofs.Channel.Starts
import DmaMachine.Proofs.Machine.Starts
import DmaMachine.Proofs.Machine.Termination
import DmaMachine.Proofs.Session.Ends
