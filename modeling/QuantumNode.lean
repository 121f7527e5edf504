import QuantumNode.Main
import QuantumNode.Proofs.Assembly.Delivery
import QuantumNode.Proofs.Assembly.Instantiation
import QuantumNode.Proofs.Assembly.Splitting
import QuantumNode.Proofs.Channel.Hub
import QuantumNode.Proofs.Flow.Contents
import QuantumNode.Proofs.Mapping.Gates
import QuantumNode.Proofs.Mapping.Scratch
import QuantumNode.Proofs.Node.Registration
import QuantumNode.Proofs.Node.Senders
import QuantumNode.Proofs.Node.Writes
import QuantumNode.Proofs.Quantum.Digits
import QuantumNode.Proofs.Session.Corrections
import QuantumNode.Proofs.Session.Identifiers
import QuantumNode.Proofs.Session.Line
import QuantumNode.Proofs.Session.Results
import QuantumNode.Proofs.Session.Rotations
import QuantumNode.Quantum.Bloch
import QuantumNode.Scenario.Allocation
import QuantumNode.Scenario.Channel
import QuantumNode.Scenario.CommandLine
import QuantumNode.Scenario.Session
import QuantumNode.Scenario.Words
